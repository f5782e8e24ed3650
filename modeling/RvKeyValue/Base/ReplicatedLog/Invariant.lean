import RvKeyValue.Base.ReplicatedLog.State

/-!
# The invariant of a replicated log

Every log is rooted: an entry of term `t` stands where the leader of `t` wrote it, after the
same entries. What a node once acknowledged it still holds, or a later leader that never
held it has been elected since; a vote records the same about the voter's log at that
moment. Each step of the protocol keeps these facts, and the leader-completeness argument
needs no others.
-/

namespace ReplicatedLog

variable {N E : Type*}

/-- Each entry stands in its own term's leader log, after the same entries. -/
def Rooted (termOf : E → Nat) (s : State N E) (log : List E) : Prop :=
  ∀ position entry, log[position]? = some entry →
    (∃ election, s.elected (termOf entry) = some election) ∧
      log.take (position + 1) <+: s.leaderLog (termOf entry)

/-- A leader elected strictly between two terms did not hold a prefix. -/
def Lost (s : State N E) (since before : Nat) (pre : List E) : Prop :=
  ∃ term election, since < term ∧ term < before ∧ s.elected term = some election ∧
    ¬ pre <+: election.log

/-- A log holds whatever its node acknowledged before a term, up to lost prefixes. -/
def Kept (s : State N E) (node : N) (term : Nat) (log : List E) : Prop :=
  ∀ earlier pre, s.acked node earlier pre → earlier < term →
    pre <+: log ∨ Lost s earlier term pre

section Rooted

variable {termOf : E → Nat} {s s' : State N E}

/-- A prefix of a rooted log is rooted. -/
theorem Rooted.shorten {log pre : List E} (rooted : Rooted termOf s log) (isPrefix : pre <+: log) :
    Rooted termOf s pre := by
  obtain ⟨rest, rfl⟩ := isPrefix
  intro position entry found
  have inside : position < pre.length := (List.getElem?_eq_some_iff.mp found).1
  have same := rooted position entry (by rw [List.getElem?_append_left inside]; exact found)
  rwa [List.take_append_of_le_length inside] at same

/-- Growing history keeps a log rooted. -/
theorem Rooted.grow {log : List E} (grows : s.Grows s') (rooted : Rooted termOf s log) :
    Rooted termOf s' log := by
  intro position entry found
  obtain ⟨⟨election, decided⟩, written⟩ := rooted position entry found
  exact ⟨⟨election, grows.elected _ _ decided⟩, written.trans (grows.leaderLog _ _ decided)⟩

/-- A rooted log extended by an entry that its term's leader wrote there is rooted. -/
theorem Rooted.snoc {log : List E} {entry : E} (rooted : Rooted termOf s log)
    {election : Election N E} (decided : s.elected (termOf entry) = some election)
    (written : log ++ [entry] <+: s.leaderLog (termOf entry)) :
    Rooted termOf s (log ++ [entry]) := by
  intro position other found
  by_cases inside : position < log.length
  · rw [List.getElem?_append_left inside] at found
    rw [List.take_append_of_le_length inside]
    exact rooted position other found
  · have bound := (List.getElem?_eq_some_iff.mp found).1
    have last : position = log.length := by
      rw [List.length_append, List.length_singleton] at bound
      omega
    subst last
    obtain rfl : entry = other := by simpa using found
    refine ⟨⟨election, decided⟩, ?_⟩
    rwa [List.take_of_length_le (by simp)]

/-- Growing history keeps lost prefixes lost. -/
theorem Lost.grow {since before : Nat} {pre : List E} (grows : s.Grows s')
    (lost : Lost s since before pre) : Lost s' since before pre := by
  obtain ⟨term, election, after, earlier, decided, absent⟩ := lost
  exact ⟨term, election, after, earlier, grows.elected _ _ decided, absent⟩

/-- A later end keeps a prefix lost. -/
theorem Lost.extend {since before later : Nat} {pre : List E} (le : before ≤ later)
    (lost : Lost s since before pre) : Lost s since later pre := by
  obtain ⟨term, election, after, earlier, decided, absent⟩ := lost
  exact ⟨term, election, after, lt_of_lt_of_le earlier le, decided, absent⟩

/-- An acknowledged prefix a vote's log kept stays kept when acknowledgements do not grow. -/
theorem Kept.grow {node : N} {term : Nat} {log : List E} (grows : s.Grows s')
    (same : ∀ earlier pre, s'.acked node earlier pre → earlier < term → s.acked node earlier pre)
    (kept : Kept s node term log) : Kept s' node term log := by
  intro earlier pre acked before
  rcases kept earlier pre (same _ _ acked before) before with held | lost
  · exact Or.inl held
  · exact Or.inr (lost.grow grows)

end Rooted

/-- The inductive invariant. -/
structure Inv (termOf : E → Nat) (quorums : Quorums N) (s : State N E) : Prop where
  /-- Node logs are rooted. -/
  logRooted : ∀ node, Rooted termOf s (s.log node)
  /-- A node has seen the terms of its entries. -/
  logTerm : ∀ node, ∀ entry ∈ s.log node, termOf entry ≤ s.term node
  /-- Leader logs are rooted. -/
  leaderRooted : ∀ term election, s.elected term = some election →
    Rooted termOf s (s.leaderLog term)
  /-- A leader's log holds no later term. -/
  leaderTerm : ∀ term election, s.elected term = some election →
    ∀ entry ∈ s.leaderLog term, termOf entry ≤ term
  /-- No leader is elected in term zero. -/
  electedPos : ∀ term election, s.elected term = some election → 0 < term
  /-- A leader keeps the log it was elected with. -/
  electedLog : ∀ term election, s.elected term = some election →
    election.log <+: s.leaderLog term
  /-- That log is older than the term. -/
  electedOld : ∀ term election, s.elected term = some election →
    ∀ entry ∈ election.log, termOf entry < term
  /-- A leader has seen its term. -/
  electedLeader : ∀ term election, s.elected term = some election →
    term ≤ s.term election.leader
  /-- Until it sees a later term, a leader's log is what it has written. -/
  leaderHolds : ∀ term election, s.elected term = some election →
    s.term election.leader = term → s.log election.leader = s.leaderLog term
  /-- A quorum voted for the leader on logs no fresher than its own. -/
  electedVotes : ∀ term election, s.elected term = some election →
    quorums.IsQuorum election.voters ∧ ∀ voter ∈ election.voters, ∃ log,
      s.granted voter term election.leader log ∧ UpToDate termOf election.log log ∧
        Kept s voter term log
  /-- A voter has seen the term. -/
  grantedTerm : ∀ voter term candidate log, s.granted voter term candidate log →
    term ≤ s.term voter
  /-- A vote in the current term is the recorded one. -/
  grantedVote : ∀ voter term candidate log, s.granted voter term candidate log →
    s.term voter = term → s.vote voter = some candidate
  /-- One vote in each term. -/
  grantedOnce : ∀ voter term left leftLog right rightLog, s.granted voter term left leftLog →
    s.granted voter term right rightLog → left = right
  /-- Voters' logs are rooted. -/
  grantedRooted : ∀ voter term candidate log, s.granted voter term candidate log →
    Rooted termOf s log
  /-- While the election is open, the voter's log kept what was acknowledged. -/
  grantedKept : ∀ voter term candidate log, s.granted voter term candidate log →
    s.elected term = none → Kept s voter term log
  /-- A node acknowledges in terms it has seen. -/
  ackedTerm : ∀ node term pre, s.acked node term pre → term ≤ s.term node
  /-- Only what the leader wrote is acknowledged. -/
  ackedWritten : ∀ node term pre, s.acked node term pre →
    ∃ election, s.elected term = some election ∧ pre <+: s.leaderLog term
  /-- Acknowledging a prefix acknowledges every shorter one. -/
  ackedShorter : ∀ node term pre known, s.acked node term pre → known <+: pre →
    s.acked node term known
  /-- What was acknowledged is held, up to lost prefixes. -/
  ackedHeld : ∀ node term pre, s.acked node term pre →
    pre <+: s.log node ∨ Lost s term (s.term node + 1) pre

section Initial

/-- The invariant holds before anything happened. -/
theorem Inv.initial (termOf : E → Nat) (quorums : Quorums N) :
    Inv termOf quorums (State.initial : State N E) := by
  constructor <;> simp [State.initial, Rooted]

end Initial

section Preservation

variable [DecidableEq N] {termOf : E → Nat} {quorums : Quorums N} {s : State N E}

/-- Voting, moving on, being elected, writing, copying and acknowledging only grow history. -/
theorem Step.grows (inv : Inv termOf quorums s) {s' : State N E} (step : Step termOf quorums s s') :
    s.Grows s' := by
  cases step with
  | raise node term later =>
    refine ⟨fun other => ?_, fun _ _ h => h, fun _ _ _ => List.prefix_rfl, fun _ _ _ _ h => h,
      fun _ _ _ h => h⟩
    by_cases same : other = node
    · subst same
      simpa [State.raise] using later.le
    · simp [State.raise, same]
  | castVote node candidate free =>
    exact ⟨fun _ => le_refl _, fun _ _ h => h, fun _ _ _ => List.prefix_rfl,
      fun _ _ _ _ h => Or.inl h, fun _ _ _ h => h⟩
  | elect node voters undecided positive quorum votes =>
    refine ⟨fun _ => le_refl _, fun term election decided => ?_, fun term election decided => ?_,
      fun _ _ _ _ h => h, fun _ _ _ h => h⟩ <;>
    · have other : term ≠ s.term node := by
        rintro rfl
        rw [undecided] at decided
        contradiction
      simp [State.elect, other, decided]
  | append node entry election leads self current =>
    refine ⟨fun _ => le_refl _, fun _ _ h => h, fun term other decided => ?_, fun _ _ _ _ h => h,
      fun _ _ _ h => h⟩
    by_cases same : term = s.term node
    · subst same
      have holds := inv.leaderHolds _ _ leads (by rw [self])
      rw [self] at holds
      simp [State.append, ← holds]
    · simp [State.append, same]
  | accept node count election led missing =>
    exact ⟨fun _ => le_refl _, fun _ _ h => h, fun _ _ _ => List.prefix_rfl, fun _ _ _ _ h => h,
      fun _ _ _ h => h⟩
  | ack node pre election led held written =>
    exact ⟨fun _ => le_refl _, fun _ _ h => h, fun _ _ _ => List.prefix_rfl, fun _ _ _ _ h => h,
      fun _ _ _ h => Or.inl h⟩

/-- Moving to a later term keeps the invariant: no vote, leadership or acknowledgement of the
new term exists yet. -/
theorem Inv.raise (inv : Inv termOf quorums s) (node : N) (term : Nat) (later : s.term node < term) :
    Inv termOf quorums (s.raise node term) := by
  have grows := Step.grows inv (.raise node term later)
  have moved : ∀ other, s.term other ≤ (s.raise node term).term other := grows.term
  have reached : ∀ other known, known ≤ s.term other → (s.raise node term).term other = known →
      other ≠ node := by
    rintro other known seen now rfl
    simp only [State.raise, Function.update_self] at now
    omega
  refine { inv with
    logTerm := ?_, electedLeader := ?_, leaderHolds := ?_, grantedTerm := ?_, grantedVote := ?_,
    ackedTerm := ?_, ackedHeld := ?_ }
  · intro other entry found
    exact le_trans (inv.logTerm other entry found) (moved other)
  · intro known election decided
    exact le_trans (inv.electedLeader known election decided) (moved _)
  · intro known election decided now
    have other := reached _ _ (inv.electedLeader known election decided) now
    apply inv.leaderHolds known election decided
    simpa [State.raise, other] using now
  · intro voter known candidate log granted
    exact le_trans (inv.grantedTerm voter known candidate log granted) (moved _)
  · intro voter known candidate log granted now
    have other := reached _ _ (inv.grantedTerm voter known candidate log granted) now
    have kept := inv.grantedVote voter known candidate log granted
      (by simpa [State.raise, other] using now)
    simpa [State.raise, other] using kept
  · intro other known pre acked
    exact le_trans (inv.ackedTerm other known pre acked) (moved _)
  · intro other known pre acked
    rcases inv.ackedHeld other known pre acked with held | lost
    · exact Or.inl held
    · exact Or.inr (lost.extend (Nat.succ_le_succ (moved other)))

/-- Voting keeps the invariant: an open election has had no leader whose entries could have
displaced what the voter acknowledged. -/
theorem Inv.castVote (inv : Inv termOf quorums s) (node candidate : N)
    (free : ∀ other, s.vote node = some other → other = candidate) :
    Inv termOf quorums (s.castVote node candidate) := by
  have grows := Step.grows inv (.castVote node candidate free)
  have unchanged : ∀ other term log, Kept s other term log →
      Kept (s.castVote node candidate) other term log :=
    fun other term log kept => kept.grow grows (fun _ _ acked _ => acked)
  refine { inv with
    electedVotes := ?_, grantedTerm := ?_, grantedVote := ?_, grantedOnce := ?_,
    grantedRooted := ?_, grantedKept := ?_ }
  · intro term election decided
    obtain ⟨quorum, votes⟩ := inv.electedVotes term election decided
    refine ⟨quorum, fun voter voted => ?_⟩
    obtain ⟨log, granted, fresh, kept⟩ := votes voter voted
    exact ⟨log, Or.inl granted, fresh, unchanged _ _ _ kept⟩
  · rintro voter term chosen log (granted | ⟨rfl, rfl, rfl, rfl⟩)
    · exact inv.grantedTerm _ _ _ _ granted
    · exact le_refl _
  · rintro voter term chosen log (granted | ⟨rfl, rfl, rfl, rfl⟩) now
    · have vote := inv.grantedVote _ _ _ _ granted now
      by_cases same : voter = node
      · subst same
        simp [State.castVote, free _ vote]
      · simpa [State.castVote, same] using vote
    · simp [State.castVote]
  · rintro voter term left leftLog right rightLog (first | ⟨rfl, rfl, rfl, rfl⟩)
      (second | ⟨same, now, rfl, rfl⟩)
    · exact inv.grantedOnce _ _ _ _ _ _ first second
    · subst same
      exact free _ (inv.grantedVote _ _ _ _ first now.symm)
    · exact (free _ (inv.grantedVote _ _ _ _ second rfl)).symm
    · rfl
  · rintro voter term chosen log (granted | ⟨rfl, rfl, rfl, rfl⟩)
    · exact inv.grantedRooted _ _ _ _ granted
    · exact inv.logRooted voter
  · rintro voter term chosen log (granted | ⟨rfl, rfl, rfl, rfl⟩) undecided
    · exact unchanged _ _ _ (inv.grantedKept _ _ _ _ granted undecided)
    · intro earlier pre acked before
      rcases inv.ackedHeld voter earlier pre acked with held | lost
      · exact Or.inl held
      · -- the displacing leader is not one of this term, whose election is open
        obtain ⟨found, election, after, upTo, decided, absent⟩ := lost
        have other : found ≠ s.term voter := by
          rintro rfl
          rw [show s.elected _ = none from undecided] at decided
          contradiction
        exact Or.inr ⟨found, election, after, by omega, decided, absent⟩

/-- Deciding an open election keeps the invariant: no entry of the term exists yet, so the new
leader's log is older, and its voters kept what they acknowledged. -/
theorem Inv.elect (inv : Inv termOf quorums s) (node : N) (voters : Finset N)
    (undecided : s.elected (s.term node) = none) (positive : 0 < s.term node)
    (quorum : quorums.IsQuorum voters)
    (votes : ∀ voter ∈ voters, ∃ log, s.granted voter (s.term node) node log ∧
      UpToDate termOf (s.log node) log) :
    Inv termOf quorums (s.elect node voters) := by
  have grows := Step.grows inv (.elect node voters undecided positive quorum votes)
  have unchanged : ∀ other term log, Kept s other term log →
      Kept (s.elect node voters) other term log :=
    fun other term log kept => kept.grow grows (fun _ _ acked _ => acked)
  have older : ∀ entry ∈ s.log node, termOf entry < s.term node := by
    intro entry found
    obtain ⟨position, found_at⟩ := List.getElem?_of_mem found
    obtain ⟨⟨election, decided⟩, _⟩ := inv.logRooted node position entry found_at
    have bound := inv.logTerm node entry found
    have other : termOf entry ≠ s.term node := by
      intro same
      rw [same, undecided] at decided
      contradiction
    omega
  -- each field is either about the term just decided or about an earlier decision
  have decidedCases : ∀ term election, (s.elect node voters).elected term = some election →
      term = s.term node ∧ election = ⟨node, s.log node, voters⟩ ∧
        (s.elect node voters).leaderLog term = s.log node ∨
      s.elected term = some election ∧ (s.elect node voters).leaderLog term = s.leaderLog term := by
    intro term election decided
    by_cases same : term = s.term node
    · subst same
      left
      simp only [State.elect, Function.update_self, Option.some.injEq] at decided ⊢
      exact ⟨trivial, decided.symm, trivial⟩
    · right
      simpa [State.elect, same] using decided
  constructor
  · exact fun other => (inv.logRooted other).grow grows
  · exact inv.logTerm
  · intro term election decided
    rcases decidedCases term election decided with ⟨-, -, log⟩ | ⟨old, log⟩ <;> rw [log]
    · exact (inv.logRooted node).grow grows
    · exact (inv.leaderRooted term election old).grow grows
  · intro term election decided entry found
    rcases decidedCases term election decided with ⟨rfl, -, log⟩ | ⟨old, log⟩ <;> rw [log] at found
    · exact inv.logTerm node entry found
    · exact inv.leaderTerm term election old entry found
  · intro term election decided
    rcases decidedCases term election decided with ⟨rfl, -, -⟩ | ⟨old, -⟩
    · exact positive
    · exact inv.electedPos term election old
  · intro term election decided
    rcases decidedCases term election decided with ⟨-, rfl, log⟩ | ⟨old, log⟩ <;> rw [log]
    exact inv.electedLog term election old
  · intro term election decided entry found
    rcases decidedCases term election decided with ⟨rfl, rfl, -⟩ | ⟨old, -⟩
    · exact older entry found
    · exact inv.electedOld term election old entry found
  · intro term election decided
    rcases decidedCases term election decided with ⟨rfl, rfl, -⟩ | ⟨old, -⟩
    · exact le_refl _
    · exact inv.electedLeader term election old
  · intro term election decided now
    rcases decidedCases term election decided with ⟨rfl, rfl, log⟩ | ⟨old, log⟩ <;> rw [log]
    · rfl
    · exact inv.leaderHolds term election old now
  · intro term election decided
    rcases decidedCases term election decided with ⟨rfl, rfl, -⟩ | ⟨old, -⟩
    · refine ⟨quorum, fun voter voted => ?_⟩
      obtain ⟨log, granted, fresh⟩ := votes voter voted
      exact ⟨log, granted, fresh, unchanged _ _ _ (inv.grantedKept _ _ _ _ granted undecided)⟩
    · obtain ⟨oldQuorum, oldVotes⟩ := inv.electedVotes term election old
      refine ⟨oldQuorum, fun voter voted => ?_⟩
      obtain ⟨log, granted, fresh, kept⟩ := oldVotes voter voted
      exact ⟨log, granted, fresh, unchanged _ _ _ kept⟩
  · exact inv.grantedTerm
  · exact inv.grantedVote
  · exact inv.grantedOnce
  · exact fun voter term candidate log granted =>
      (inv.grantedRooted voter term candidate log granted).grow grows
  · intro voter term candidate log granted still
    apply unchanged
    apply inv.grantedKept voter term candidate log granted
    cases decided : s.elected term with
    | none => rfl
    | some election =>
      rw [grows.elected term election decided] at still
      contradiction
  · exact inv.ackedTerm
  · intro other term pre acked
    obtain ⟨election, decided, written⟩ := inv.ackedWritten other term pre acked
    exact ⟨election, grows.elected _ _ decided, written.trans (grows.leaderLog _ _ decided)⟩
  · exact inv.ackedShorter
  · intro other term pre acked
    rcases inv.ackedHeld other term pre acked with held | lost
    · exact Or.inl held
    · exact Or.inr (lost.grow grows)

/-- A leader that extends its log keeps the invariant. -/
theorem Inv.append (inv : Inv termOf quorums s) (node : N) (entry : E) (election : Election N E)
    (leads : s.elected (s.term node) = some election) (self : election.leader = node)
    (current : termOf entry = s.term node) :
    Inv termOf quorums (s.append node entry) := by
  have grows := Step.grows inv (.append node entry election leads self current)
  have holds : s.log node = s.leaderLog (s.term node) := by
    have held := inv.leaderHolds _ _ leads (by rw [self])
    rwa [self] at held
  have unchanged : ∀ other term log, Kept s other term log →
      Kept (s.append node entry) other term log :=
    fun other term log kept => kept.grow grows (fun _ _ acked _ => acked)
  have extended : Rooted termOf (s.append node entry) (s.log node ++ [entry]) := by
    apply Rooted.snoc ((inv.logRooted node).grow grows) (by rw [current]; exact leads)
    rw [current]
    simp [State.append]
  have extendedTerm : ∀ other ∈ s.log node ++ [entry], termOf other ≤ s.term node := by
    intro other found
    rcases List.mem_append.mp found with old | new
    · exact inv.logTerm node other old
    · rw [List.mem_singleton.mp new, current]
  have logGrows : ∀ other, s.log other <+: (s.append node entry).log other := by
    intro other
    by_cases same : other = node
    · subst same
      simp [State.append]
    · simp [State.append, same]
  constructor
  · intro other
    by_cases same : other = node
    · subst same
      simpa [State.append] using extended
    · simpa [State.append, same] using (inv.logRooted other).grow grows
  · intro other
    by_cases same : other = node
    · subst same
      simpa [State.append] using extendedTerm
    · simpa [State.append, same] using inv.logTerm other
  · intro term decision decided
    by_cases same : term = s.term node
    · subst same
      simpa [State.append] using extended
    · simpa [State.append, same] using (inv.leaderRooted term decision decided).grow grows
  · intro term decision decided
    by_cases same : term = s.term node
    · subst same
      simpa [State.append] using extendedTerm
    · simpa [State.append, same] using inv.leaderTerm term decision decided
  · exact inv.electedPos
  · exact fun term decision decided =>
      (inv.electedLog term decision decided).trans (grows.leaderLog term decision decided)
  · exact inv.electedOld
  · exact inv.electedLeader
  · intro term decision decided now
    have kept := inv.leaderHolds term decision decided now
    by_cases same : term = s.term node
    · subst same
      obtain rfl := Option.some.inj (leads.symm.trans decided)
      simp [State.append, self]
    · have other : decision.leader ≠ node := by
        rintro rfl
        exact same now.symm
      simpa [State.append, same, other] using kept
  · intro term decision decided
    obtain ⟨quorum, votes⟩ := inv.electedVotes term decision decided
    refine ⟨quorum, fun voter voted => ?_⟩
    obtain ⟨log, granted, fresh, kept⟩ := votes voter voted
    exact ⟨log, granted, fresh, unchanged _ _ _ kept⟩
  · exact inv.grantedTerm
  · exact inv.grantedVote
  · exact inv.grantedOnce
  · exact fun voter term candidate log granted =>
      (inv.grantedRooted voter term candidate log granted).grow grows
  · exact fun voter term candidate log granted undecided =>
      unchanged _ _ _ (inv.grantedKept voter term candidate log granted undecided)
  · exact inv.ackedTerm
  · intro other term pre acked
    obtain ⟨decision, decided, written⟩ := inv.ackedWritten other term pre acked
    exact ⟨decision, decided, written.trans (grows.leaderLog _ _ decided)⟩
  · exact inv.ackedShorter
  · intro other term pre acked
    rcases inv.ackedHeld other term pre acked with held | lost
    · exact Or.inl (held.trans (logGrows other))
    · exact Or.inr (lost.grow grows)

/-- Copying a missing prefix of the leader's log keeps the invariant: an acknowledged prefix the
copy drops is one the leader of this term was elected without. -/
theorem Inv.accept (inv : Inv termOf quorums s) (node : N) (count : Nat)
    (election : Election N E) (led : s.elected (s.term node) = some election)
    (missing : ¬ (s.leaderLog (s.term node)).take count <+: s.log node) :
    Inv termOf quorums (s.accept node count) := by
  have grows := Step.grows inv (.accept node count election led missing)
  have copied : (s.leaderLog (s.term node)).take count <+: s.leaderLog (s.term node) :=
    List.take_prefix _ _
  refine { inv with logRooted := ?_, logTerm := ?_, leaderHolds := ?_, ackedHeld := ?_ }
  · intro other
    by_cases same : other = node
    · subst same
      simpa [State.accept] using ((inv.leaderRooted _ _ led).shorten copied).grow grows
    · simpa [State.accept, same] using (inv.logRooted other).grow grows
  · intro other
    by_cases same : other = node
    · subst same
      intro entry found
      simp only [State.accept, Function.update_self] at found
      exact inv.leaderTerm _ _ led entry (copied.subset found)
    · simpa [State.accept, same] using inv.logTerm other
  · intro term decision decided now
    have holds := inv.leaderHolds term decision decided now
    have other : decision.leader ≠ node := by
      -- a leader holds its whole log, so nothing of it is missing
      rintro rfl
      apply missing
      rw [show s.term decision.leader = term from now, holds]
      exact List.take_prefix _ _
    simpa [State.accept, other] using holds
  · intro other term pre acked
    rcases inv.ackedHeld other term pre acked with held | lost
    swap
    · exact Or.inr lost
    by_cases same : other = node
    swap
    · left
      simpa [State.accept, same] using held
    subst same
    by_cases written : pre <+: s.leaderLog (s.term other)
    · left
      rcases List.prefix_or_prefix_of_prefix written copied with shorter | longer
      · simpa [State.accept] using shorter
      · exact absurd (longer.trans held) missing
    · right
      have seen := inv.ackedTerm other term pre acked
      have earlier : term ≠ s.term other := by
        rintro rfl
        obtain ⟨_, _, wrote⟩ := inv.ackedWritten other _ pre acked
        exact written wrote
      refine ⟨s.term other, election, by omega, Nat.lt_succ_self _, led, fun within => ?_⟩
      exact written (within.trans (inv.electedLog _ _ led))

omit [DecidableEq N] in
/-- Acknowledging a held prefix keeps the invariant: nobody has voted in a term it has not seen,
so no vote looks back on the new acknowledgement. -/
theorem Inv.ack (inv : Inv termOf quorums s) (node : N) (pre : List E)
    (election : Election N E) (led : s.elected (s.term node) = some election)
    (held : pre <+: s.log node) (written : pre <+: s.leaderLog (s.term node)) :
    Inv termOf quorums (s.ack node pre) := by
  have grows : s.Grows (s.ack node pre) :=
    ⟨fun _ => le_refl _, fun _ _ h => h, fun _ _ _ => List.prefix_rfl, fun _ _ _ _ h => h,
      fun _ _ _ h => Or.inl h⟩
  have unchanged : ∀ voter term candidate log, s.granted voter term candidate log →
      Kept s voter term log → Kept (s.ack node pre) voter term log := by
    intro voter term candidate log granted kept
    apply kept.grow grows
    rintro earlier known (old | ⟨rfl, rfl, -⟩) before
    · exact old
    · have seen := inv.grantedTerm voter term candidate log granted
      omega
  refine { inv with
    electedVotes := ?_, grantedKept := ?_, ackedTerm := ?_, ackedWritten := ?_, ackedShorter := ?_,
    ackedHeld := ?_ }
  · intro term decision decided
    obtain ⟨quorum, votes⟩ := inv.electedVotes term decision decided
    refine ⟨quorum, fun voter voted => ?_⟩
    obtain ⟨log, granted, fresh, kept⟩ := votes voter voted
    exact ⟨log, granted, fresh, unchanged _ _ _ _ granted kept⟩
  · exact fun voter term candidate log granted undecided =>
      unchanged _ _ _ _ granted (inv.grantedKept _ _ _ _ granted undecided)
  · rintro other term known (old | ⟨rfl, rfl, -⟩)
    · exact inv.ackedTerm _ _ _ old
    · exact le_refl _
  · rintro other term known (old | ⟨rfl, rfl, shorter⟩)
    · exact inv.ackedWritten _ _ _ old
    · exact ⟨election, led, shorter.trans written⟩
  · rintro other term acknowledged known (old | ⟨rfl, rfl, shorter⟩) within
    · exact Or.inl (inv.ackedShorter _ _ _ _ old within)
    · exact Or.inr ⟨rfl, rfl, within.trans shorter⟩
  · rintro other term known (old | ⟨rfl, rfl, shorter⟩)
    · exact inv.ackedHeld _ _ _ old
    · exact Or.inl (shorter.trans held)

/-- Every step keeps the invariant. -/
theorem Inv.step (inv : Inv termOf quorums s) {s' : State N E} (step : Step termOf quorums s s') :
    Inv termOf quorums s' := by
  cases step with
  | raise node term later => exact inv.raise node term later
  | castVote node candidate free => exact inv.castVote node candidate free
  | elect node voters undecided positive quorum votes =>
    exact inv.elect node voters undecided positive quorum votes
  | append node entry election leads self current =>
    exact inv.append node entry election leads self current
  | accept node count election led missing => exact inv.accept node count election led missing
  | ack node pre election led held written => exact inv.ack node pre election led held written

end Preservation

end ReplicatedLog
