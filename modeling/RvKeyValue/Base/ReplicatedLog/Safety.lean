import RvKeyValue.Base.ReplicatedLog.Invariant

/-!
# Leader completeness and agreement

A prefix of a leader's log that ends in an entry of the leader's own term is chosen once a
quorum has acknowledged it. Every leader elected later was elected with it, by strong
induction on the term: the two quorums meet in a node that acknowledged the prefix and
voted, so its log at the vote held the prefix or an earlier leader lacked it. Hence any two
chosen prefixes are comparable.
-/

namespace ReplicatedLog

variable {N E : Type*}

/-- A quorum has acknowledged a prefix that ends in an entry of its leader's term. -/
def Chosen (termOf : E → Nat) (quorums : Quorums N) (s : State N E) (term : Nat) (pre : List E) :
    Prop :=
  (∃ election, s.elected term = some election) ∧ pre <+: s.leaderLog term ∧
    (∃ entry ∈ pre, termOf entry = term) ∧
      ∃ acks, quorums.IsQuorum acks ∧ ∀ node ∈ acks, s.acked node term pre

/-- A log holds only entries of chosen prefixes of terms up to the given one. -/
def Committed (termOf : E → Nat) (quorums : Quorums N) (s : State N E) (term : Nat)
    (log : List E) : Prop :=
  log = [] ∨ ∃ earlier pre, earlier ≤ term ∧ Chosen termOf quorums s earlier pre ∧ log <+: pre

section Order

variable {termOf : E → Nat} {quorums : Quorums N} {s : State N E}

/-- The entries of a rooted log never fall in term. -/
theorem Rooted.le_of_mem_take (inv : Inv termOf quorums s) {log : List E}
    (rooted : Rooted termOf s log) {position : Nat} {entry other : E}
    (found : log[position]? = some entry) (before : other ∈ log.take (position + 1)) :
    termOf other ≤ termOf entry := by
  obtain ⟨⟨election, decided⟩, written⟩ := rooted position entry found
  exact inv.leaderTerm _ _ decided other (written.subset before)

/-- The last term of a rooted log bounds the terms of its entries. -/
theorem Rooted.le_lastTerm (inv : Inv termOf quorums s) {log : List E}
    (rooted : Rooted termOf s log) {entry : E} (found : entry ∈ log) :
    termOf entry ≤ lastTerm termOf log := by
  have nonempty : log ≠ [] := List.ne_nil_of_mem found
  have last : log[log.length - 1]? = some (log.getLast nonempty) := by
    rw [← List.getLast?_eq_getElem?, List.getLast?_eq_getLast_of_ne_nil nonempty]
  have whole : entry ∈ log.take (log.length - 1 + 1) := by
    rwa [List.take_of_length_le (by omega)]
  have bound := rooted.le_of_mem_take inv last whole
  simpa [lastTerm, List.getLast?_eq_getLast_of_ne_nil nonempty] using bound

/-- A rooted log is a prefix of its last term's leader log. -/
theorem Rooted.prefix_leaderLog {log : List E} (rooted : Rooted termOf s log) (nonempty : log ≠ []) :
    (∃ election, s.elected (lastTerm termOf log) = some election) ∧
      log <+: s.leaderLog (lastTerm termOf log) := by
  have last : log[log.length - 1]? = some (log.getLast nonempty) := by
    rw [← List.getLast?_eq_getElem?, List.getLast?_eq_getLast_of_ne_nil nonempty]
  have length : 0 < log.length := List.length_pos_iff.mpr nonempty
  have rootedLast := rooted _ _ last
  rw [List.take_of_length_le (by omega)] at rootedLast
  simpa [lastTerm, List.getLast?_eq_getLast_of_ne_nil nonempty] using rootedLast

/-- Two rooted logs with an entry of the same term at the same position agree up to it. -/
theorem Rooted.matching {left right : List E} (rootedLeft : Rooted termOf s left)
    (rootedRight : Rooted termOf s right) {position : Nat} {leftEntry rightEntry : E}
    (atLeft : left[position]? = some leftEntry) (atRight : right[position]? = some rightEntry)
    (same : termOf leftEntry = termOf rightEntry) :
    left.take (position + 1) = right.take (position + 1) := by
  have leftWritten := (rootedLeft position leftEntry atLeft).2
  have rightWritten := (rootedRight position rightEntry atRight).2
  rw [same] at leftWritten
  have leftLength := (List.getElem?_eq_some_iff.mp atLeft).1
  have rightLength := (List.getElem?_eq_some_iff.mp atRight).1
  have length : (left.take (position + 1)).length = (right.take (position + 1)).length := by
    simp only [List.length_take]
    omega
  exact (List.prefix_of_prefix_length_le leftWritten rightWritten length.le).eq_of_length length

end Order

section Safety

variable {termOf : E → Nat} {quorums : Quorums N} {s s' : State N E}

/-- Growing history keeps a prefix chosen. -/
theorem Chosen.grow {term : Nat} {pre : List E} (grows : s.Grows s')
    (chosen : Chosen termOf quorums s term pre) : Chosen termOf quorums s' term pre := by
  obtain ⟨⟨election, decided⟩, written, own, acks, quorum, acked⟩ := chosen
  exact ⟨⟨election, grows.elected _ _ decided⟩, written.trans (grows.leaderLog _ _ decided), own,
    acks, quorum, fun node inside => grows.acked _ _ _ (acked node inside)⟩

/-- A log at least as fresh as one that holds a chosen prefix holds it too, when every leader in
between does. -/
theorem prefix_of_upToDate (inv : Inv termOf quorums s) {term later : Nat}
    {pre voter candidate : List E} (written : pre <+: s.leaderLog term)
    {decision : Election N E} (decided : s.elected term = some decision)
    (own : ∃ entry ∈ pre, termOf entry = term) (held : pre <+: voter)
    (voterRooted : Rooted termOf s voter) (candidateRooted : Rooted termOf s candidate)
    (fresh : UpToDate termOf candidate voter)
    (older : ∀ entry ∈ candidate, termOf entry < later)
    (between : ∀ middle election, term < middle → middle < later →
      s.elected middle = some election → pre <+: election.log) :
    pre <+: candidate := by
  obtain ⟨entry, inside, current⟩ := own
  have positive := inv.electedPos _ _ decided
  have voterLast : term ≤ lastTerm termOf voter := by
    rw [← current]
    exact voterRooted.le_lastTerm inv (held.subset inside)
  have candidateLast : term ≤ lastTerm termOf candidate := by
    rcases fresh with newer | ⟨same, -⟩ <;> omega
  have nonempty : candidate ≠ [] := by
    rintro rfl
    simp only [lastTerm, List.getLast?_nil, Option.map_none, Option.getD_none] at candidateLast
    omega
  obtain ⟨⟨election, elected⟩, rooted⟩ := candidateRooted.prefix_leaderLog nonempty
  rcases Nat.eq_or_lt_of_le candidateLast with same | newer
  · -- both logs end in the same term's log, and the candidate's is the longer one
    rw [← same] at rooted
    have length : pre.length ≤ candidate.length := by
      have shorter := held.length_le
      rcases fresh with newer | ⟨-, longer⟩ <;> omega
    exact List.prefix_of_prefix_length_le written rooted length
  · -- the candidate's last entry comes from a later leader, which held the prefix
    have lastInside : candidate.getLast nonempty ∈ candidate := List.getLast_mem nonempty
    have lastTerm_eq : lastTerm termOf candidate = termOf (candidate.getLast nonempty) := by
      simp [lastTerm, List.getLast?_eq_getLast_of_ne_nil nonempty]
    have bounded : lastTerm termOf candidate < later := by
      rw [lastTerm_eq]
      exact older _ lastInside
    have passed := (between _ _ newer bounded elected).trans (inv.electedLog _ _ elected)
    rcases List.prefix_or_prefix_of_prefix passed rooted with shorter | longer
    · exact shorter
    · have early := inv.leaderTerm _ _ decided _ (written.subset (longer.subset lastInside))
      omega

/-- A chosen prefix is in the log every later leader was elected with. -/
theorem Chosen.leader_completeness (inv : Inv termOf quorums s) {term : Nat} {pre : List E}
    (chosen : Chosen termOf quorums s term pre) {later : Nat} {election : Election N E}
    (after : term < later) (elected : s.elected later = some election) :
    pre <+: election.log := by
  induction later using Nat.strongRecOn generalizing election with
  | ind later ih =>
    obtain ⟨⟨decision, decided⟩, written, own, acks, quorum, acked⟩ := chosen
    obtain ⟨voters, votes⟩ := inv.electedVotes _ _ elected
    obtain ⟨node, acknowledged, voted⟩ := quorums.meet acks election.voters quorum voters
    obtain ⟨log, granted, fresh, kept⟩ := votes node voted
    have held : pre <+: log := by
      rcases kept term pre (acked node acknowledged) after with held | lost
      · exact held
      · obtain ⟨middle, other, above, below, otherElected, absent⟩ := lost
        exact absurd (ih middle below above otherElected) absent
    have rooted : Rooted termOf s election.log :=
      (inv.leaderRooted _ _ elected).shorten (inv.electedLog _ _ elected)
    exact prefix_of_upToDate inv written decided own held (inv.grantedRooted _ _ _ _ granted) rooted
      fresh (inv.electedOld _ _ elected)
      (fun middle other above below otherElected => ih middle below above otherElected)

/-- A chosen prefix is in the log of its own and of every later leader. -/
theorem Chosen.prefix_leaderLog (inv : Inv termOf quorums s) {term : Nat} {pre : List E}
    (chosen : Chosen termOf quorums s term pre) {later : Nat} {election : Election N E}
    (after : term ≤ later) (elected : s.elected later = some election) :
    pre <+: s.leaderLog later := by
  rcases Nat.eq_or_lt_of_le after with same | newer
  · rw [← same]
    exact chosen.2.1
  · exact (chosen.leader_completeness inv newer elected).trans (inv.electedLog _ _ elected)

/-- The quorum that acknowledged a chosen prefix holds it. -/
theorem Chosen.held (inv : Inv termOf quorums s) {term : Nat} {pre : List E}
    (chosen : Chosen termOf quorums s term pre) :
    ∃ acks, quorums.IsQuorum acks ∧ ∀ node ∈ acks, term ≤ s.term node ∧ pre <+: s.log node := by
  obtain ⟨-, -, -, acks, quorum, acked⟩ := id chosen
  refine ⟨acks, quorum, fun node inside => ⟨inv.ackedTerm _ _ _ (acked node inside), ?_⟩⟩
  rcases inv.ackedHeld _ _ _ (acked node inside) with held | ⟨later, election, after, -, elected, absent⟩
  · exact held
  · -- every later leader was elected with the prefix
    exact absurd (chosen.leader_completeness inv after elected) absent

/-- Any two chosen prefixes are comparable. -/
theorem Chosen.comparable (inv : Inv termOf quorums s) {leftTerm rightTerm : Nat}
    {left right : List E} (first : Chosen termOf quorums s leftTerm left)
    (second : Chosen termOf quorums s rightTerm right) : left <+: right ∨ right <+: left := by
  obtain ⟨leftElection, leftElected⟩ := first.1
  obtain ⟨rightElection, rightElected⟩ := second.1
  rcases Nat.le_total leftTerm rightTerm with earlier | later
  · exact List.prefix_or_prefix_of_prefix (first.prefix_leaderLog inv earlier rightElected)
      second.2.1
  · exact List.prefix_or_prefix_of_prefix first.2.1
      (second.prefix_leaderLog inv later leftElected)

/-- Two chosen prefixes hold the same entry at a position both reach. -/
theorem Chosen.agree (inv : Inv termOf quorums s) {leftTerm rightTerm position : Nat}
    {left right : List E} {leftEntry rightEntry : E}
    (first : Chosen termOf quorums s leftTerm left)
    (second : Chosen termOf quorums s rightTerm right)
    (atLeft : left[position]? = some leftEntry) (atRight : right[position]? = some rightEntry) :
    leftEntry = rightEntry := by
  rcases first.comparable inv second with shorter | longer
  · exact Option.some.inj ((shorter.getElem?_of_some atLeft).symm.trans atRight)
  · exact Option.some.inj (atLeft.symm.trans (longer.getElem?_of_some atRight))

/-- Growing history and later terms keep a log committed. -/
theorem Committed.grow {term later : Nat} {log : List E} (grows : s.Grows s') (le : term ≤ later)
    (committed : Committed termOf quorums s term log) : Committed termOf quorums s' later log := by
  rcases committed with rfl | ⟨earlier, pre, before, chosen, inside⟩
  · exact Or.inl rfl
  · exact Or.inr ⟨earlier, pre, le_trans before le, chosen.grow grows, inside⟩

/-- A prefix of a committed log is committed. -/
theorem Committed.shorten {term : Nat} {log shorter : List E}
    (committed : Committed termOf quorums s term log) (isPrefix : shorter <+: log) :
    Committed termOf quorums s term shorter := by
  rcases committed with rfl | ⟨earlier, pre, before, chosen, inside⟩
  · exact Or.inl (List.prefix_nil.mp isPrefix)
  · exact Or.inr ⟨earlier, pre, before, chosen, isPrefix.trans inside⟩

/-- What is committed up to a term is in that term's leader log. -/
theorem Committed.prefix_leaderLog (inv : Inv termOf quorums s) {term : Nat} {log : List E}
    (committed : Committed termOf quorums s term log) {election : Election N E}
    (elected : s.elected term = some election) : log <+: s.leaderLog term := by
  rcases committed with rfl | ⟨earlier, pre, before, chosen, inside⟩
  · exact List.nil_prefix
  · exact inside.trans (chosen.prefix_leaderLog inv before elected)

/-- An entry of a chosen prefix was written there by the leader of its term. -/
theorem Chosen.written (inv : Inv termOf quorums s) {term position : Nat} {pre : List E} {entry : E}
    (chosen : Chosen termOf quorums s term pre) (found : pre[position]? = some entry) :
    (s.leaderLog (termOf entry))[position]? = some entry := by
  obtain ⟨election, elected⟩ := chosen.1
  have rooted := (inv.leaderRooted term election elected).shorten chosen.2.1
  have copied := (rooted position entry found).2
  refine copied.getElem?_of_some ?_
  rw [List.getElem?_take_of_lt (Nat.lt_succ_self position)]
  exact found

/-- An entry of one chosen prefix comes before an entry of another one that the first does not have. -/
theorem Chosen.lt_of_absent (inv : Inv termOf quorums s) {leftTerm rightTerm first second : Nat}
    {left right : List E} {leftEntry rightEntry : E}
    (leftChosen : Chosen termOf quorums s leftTerm left)
    (rightChosen : Chosen termOf quorums s rightTerm right)
    (atLeft : left[first]? = some leftEntry) (atRight : right[second]? = some rightEntry)
    (absent : left[second]? ≠ some rightEntry) : first < second := by
  by_contra behind
  have inside : second < left.length :=
    lt_of_le_of_lt (Nat.not_lt.mp behind) (List.getElem?_eq_some_iff.mp atLeft).1
  have found : left[second]? = some left[second] := List.getElem?_eq_getElem inside
  exact absent (found.trans (congrArg some (leftChosen.agree inv rightChosen found atRight)))

/-- Of two committed logs the shorter one is the start of the other. -/
theorem Committed.prefix_of_le (inv : Inv termOf quorums s) {leftTerm rightTerm : Nat}
    {left right : List E} (first : Committed termOf quorums s leftTerm left)
    (second : Committed termOf quorums s rightTerm right) (le : left.length ≤ right.length) :
    left <+: right := by
  rcases first with rfl | ⟨_, leftPre, -, leftChosen, leftInside⟩
  · exact List.nil_prefix
  rcases second with rfl | ⟨_, rightPre, -, rightChosen, rightInside⟩
  · exact List.prefix_nil.mpr (List.length_eq_zero_iff.mp (Nat.le_zero.mp le))
  rcases leftChosen.comparable inv rightChosen with shorter | longer
  · exact List.prefix_of_prefix_length_le (leftInside.trans shorter) rightInside le
  · exact List.prefix_of_prefix_length_le leftInside (rightInside.trans longer) le

/-- Two leaders of one term are the same node. -/
theorem winner_unique (inv : Inv termOf quorums s) {term : Nat} {election : Election N E}
    (elected : s.elected term = some election) {node : N} {voters : Finset N}
    (quorum : quorums.IsQuorum voters)
    (votes : ∀ voter ∈ voters, ∃ log, s.granted voter term node log) :
    election.leader = node := by
  obtain ⟨oldQuorum, oldVotes⟩ := inv.electedVotes _ _ elected
  obtain ⟨voter, old, new⟩ := quorums.meet _ _ oldQuorum quorum
  obtain ⟨oldLog, oldGranted, -, -⟩ := oldVotes voter old
  obtain ⟨newLog, newGranted⟩ := votes voter new
  exact inv.grantedOnce _ _ _ _ _ _ oldGranted newGranted

end Safety

end ReplicatedLog
