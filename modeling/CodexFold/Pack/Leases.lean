import CodexFold.Foundation.Content
import CodexFold.Foundation.Files
import CodexFold.Foundation.Traces

/- Leases of a pack generation (`internal/pack/resolver.go`, `internal/storage/lease.go`)
   against its removal by `storage.Collect` (`gc.go`, `internal/pack/gc_guard.go`).

   A resolver opens the generation directory, creates a lease file in it by path,
   locks the file, writes its process id into it and opens the pack files through
   the directory handle. The collector looks for locked lease files, hashes the
   whole tree, renames the directory into staging and hashes it again; only if the
   two hashes agree is the directory removed. After the rename it does not look at
   locks any more.

   Any number of resolver opens `i : ι` run next to the collector, one step at a
   time. A lease file that is locked is found by the lease check, and one that is
   created or filled between the two hashes changes the tree. A lease file that was
   created before the first hash and is still empty at the second one is neither:
   the open goes on, and the generation is removed under it
   (`removed_under_resolver`). -/
namespace CodexFold.Pack.Leases
open Foundation Option Function

inductive Location where
  | packs
  | staging
  | removed
  deriving DecidableEq, Repr

inductive Phase where
  | idle
  | handle
  | leaseDirectory
  | created
  | locked
  | filled
  | synced
  | opened (references : Nat)
  | releasing
  | finished
  deriving DecidableEq, Repr

structure Tree (ι : Type) where
  directory : Bool
  files : Files ι Bytes

inductive Collector (ι : Type) where
  | idle
  | owned
  | proved (proof : Tree ι)
  | rechecked (proof : Tree ι)
  | authorized (proof : Tree ι)
  | revalidated (proof : Tree ι)
  | reowned (proof : Tree ι)
  | reproved (proof : Tree ι)
  | staged (proof : Tree ι)
  | condemned

structure State (ι : Type) where
  location : Location
  tree : Tree ι
  phase : ι → Phase
  collector : Collector ι

/-- The steps of an open: `openPackGenerationRoot`, `acquireLease`,
    `loadResolverResources`, sharing, and `Close`; `fail` gives an open up and `kill`
    ends its process. The steps of the collector: the lease checks and proofs of
    `AuthorizeGenerationRemoval`, of `gcBuilder.revalidate` and of `Revalidate`, the
    staging, the staged proof, and what follows; `giveUp` ends it. -/
inductive Action (ι : Type) where
  | openHandle (i : ι)
  | makeLeaseDirectory (i : ι)
  | createLease (i : ι)
  | lockLease (i : ι)
  | fillLease (i : ι)
  | fillPartly (i : ι) (written : Nat)
  | syncLease (i : ι)
  | openFiles (i : ι)
  | share (i : ι)
  | close (i : ι)
  | fail (i : ι)
  | release (i : ι)
  | kill (i : ι)
  | checkOwnership
  | captureProof
  | recheckOwnership
  | recaptureProof
  | revalidateCandidate
  | checkOwnershipAgain
  | captureProofAgain
  | stage
  | proveStaged
  | restore
  | removeAll
  | giveUp
  deriving DecidableEq, Repr

def Phase.locks : Phase → Bool
  | .locked | .filled | .synced | .opened _ => true
  | _ => false

def Phase.unfilled : Phase → Bool
  | .created | .locked => true
  | _ => false

def Phase.opening : Phase → Bool
  | .handle | .leaseDirectory | .created | .locked | .filled | .synced => true
  | _ => false

def Phase.isOpen : Phase → Bool
  | .opened _ => true
  | _ => false

/-- What `acquireLease` writes: the process id and a newline. -/
def leaseContent (pid : Nat) : Bytes := (Nat.toDigits 10 pid).map (fun c => c.toNat.toUInt8) ++ [10]

/-- One decimal line, as `acquireLease` writes it. -/
def recognizedLeaseContent (content : Bytes) : Bool :=
  let text := if content.getLast? = some 10 then content.dropLast else content
  !text.isEmpty && decide (text.length ≤ 20) && text.all (fun c => decide (48 ≤ c) && decide (c ≤ 57))

section
variable {ι : Type} [DecidableEq ι]
variable {s : State ι} {phase : Phase}
variable {action : Action ι}

def Tree.same (a b : Tree ι) : Bool :=
  decide (a.directory = b.directory) && a.files.names.all (fun i => decide (a.files.get i = b.files.get i)) &&
    b.files.names.all (fun i => decide (a.files.get i = b.files.get i))

def State.setPhase (s : State ι) (i : ι) (phase : Phase) : State ι :=
  { s with phase := update s.phase i phase }

def State.setFiles (s : State ι) (files : Files ι Bytes) : State ι := { s with tree := { s.tree with files } }

def State.write (s : State ι) (i : ι) (data : Bytes) : State ι :=
  if (s.tree.files.get i).isSome then s.setFiles (s.tree.files.set i data) else s

/-- `DirectoryHasActiveLease`: some lease file is locked. -/
def State.activeLease (s : State ι) : Bool := s.tree.files.entries.any (fun e => (s.phase e.1).locks)

/-- `validatePackRemovalLeaseTree`: what is left in the lease directory is empty or
    the lease of a killed process. -/
def Tree.validatePackRemovalLeaseTree (t : Tree ι) : Bool :=
  t.files.entries.all fun e => e.2.isEmpty || (decide (e.2.length ≤ 64) && recognizedLeaseContent e.2)

/-- `validatePackGenerationRemovalOwnership`, as far as it is about leases. -/
def State.validateRemovalOwnership (s : State ι) : Bool :=
  !s.activeLease && s.tree.validatePackRemovalLeaseTree

variable (pid : ι → Nat)

def openStep (s : State ι) : Action ι → Option (State ι)
  | .openHandle i =>
    if s.phase i = .idle ∧ s.location = .packs then some (s.setPhase i .handle) else none
  | .makeLeaseDirectory i =>
    if s.phase i = .handle ∧ s.location = .packs then
      some ({ s with tree := { s.tree with directory := true } }.setPhase i .leaseDirectory)
    else none
  | .createLease i =>
    if s.phase i = .leaseDirectory ∧ s.location = .packs then
      some ((s.setFiles (s.tree.files.set i [])).setPhase i .created)
    else none
  | .lockLease i => if s.phase i = .created then some (s.setPhase i .locked) else none
  | .fillLease i => if s.phase i = .locked then some ((s.write i (leaseContent (pid i))).setPhase i .filled) else none
  | .fillPartly i written =>
    if s.phase i = .locked then some ((s.write i ((leaseContent (pid i)).take written)).setPhase i .releasing) else none
  | .syncLease i => if s.phase i = .filled then some (s.setPhase i .synced) else none
  | .openFiles i =>
    if s.phase i = .synced ∧ s.location ≠ .removed then some (s.setPhase i (.opened 1)) else none
  | .share i =>
    match s.phase i with
    | .opened references =>
      if s.location = .packs then some (s.setPhase i (.opened (references + 1))) else none
    | _ => none
  | .close i =>
    match s.phase i with
    | .opened references => some (s.setPhase i (if references ≤ 1 then .releasing else .opened (references - 1)))
    | _ => none
  | .fail i => if (s.phase i).opening then some (s.setPhase i .releasing) else none
  | .release i =>
    -- the lease file is removed by path
    if s.phase i = .releasing then
      some ((if s.location = .packs then s.setFiles (s.tree.files.erase i) else s).setPhase i .finished)
    else none
  | .kill i => some (s.setPhase i .finished)
  | _ => none

def collectStep (s : State ι) : Action ι → Option (State ι)
  | .checkOwnership =>
    match s.collector with
    | .idle => if s.location = .packs ∧ s.validateRemovalOwnership then some { s with collector := .owned } else none
    | _ => none
  | .captureProof =>
    match s.collector with
    | .owned => some { s with collector := .proved s.tree }
    | _ => none
  | .recheckOwnership =>
    match s.collector with
    | .proved proof => if s.validateRemovalOwnership then some { s with collector := .rechecked proof } else none
    | _ => none
  | .recaptureProof =>
    match s.collector with
    | .rechecked proof => if s.tree.same proof then some { s with collector := .authorized proof } else none
    | _ => none
  | .revalidateCandidate =>
    match s.collector with
    | .authorized proof => if !s.activeLease then some { s with collector := .revalidated proof } else none
    | _ => none
  | .checkOwnershipAgain =>
    match s.collector with
    | .revalidated proof => if s.validateRemovalOwnership then some { s with collector := .reowned proof } else none
    | _ => none
  | .captureProofAgain =>
    match s.collector with
    | .reowned proof => if s.tree.same proof then some { s with collector := .reproved proof } else none
    | _ => none
  | .stage =>
    match s.collector with
    | .reproved proof => some { s with collector := .staged proof, location := .staging }
    | _ => none
  | .proveStaged =>
    match s.collector with
    | .staged proof => if s.tree.same proof then some { s with collector := .condemned } else none
    | _ => none
  | .restore =>
    match s.collector with
    | .staged _ => some { s with collector := .idle, location := .packs }
    | _ => none
  | .removeAll =>
    match s.collector with
    | .condemned => some { s with collector := .idle, location := .removed, tree := ⟨false, .empty⟩ }
    | _ => none
  | .giveUp => some { s with collector := .idle }
  | _ => none

def step (s : State ι) (action : Action ι) : Option (State ι) :=
  (openStep pid s action).or (collectStep s action)

def run (s : State ι) (actions : List (Action ι)) : Option (State ι) := runFrom (step pid) s actions

def State.initial (tree : Tree ι) : State ι where
  location := .packs
  tree := tree
  phase i := if (tree.files.get i).isSome then .finished else .idle
  collector := .idle

/-! ## The invariant -/

def Phase.pastFill : Phase → Bool
  | .filled | .synced | .opened _ | .releasing | .finished => true
  | _ => false

def Phase.released : Phase → Bool
  | .releasing | .finished => true
  | _ => false

def FileFits (content : Bytes) : Phase → Option Bytes → Prop
  | .idle, file | .handle, file | .leaseDirectory, file => file = none
  | .created, file | .locked, file => file = some []
  | .filled, file | .synced, file | .opened _, file => file = some content
  | .releasing, _ | .finished, _ => True

attribute [simp] FileFits Phase.pastFill Phase.released Phase.locks Phase.unfilled

def Relies (phase : ι → Phase) (location : Location) : Collector ι → Prop
  | .idle => True
  | .owned => location = .packs
  | .proved proof | .rechecked proof | .authorized proof | .revalidated proof => location = .packs ∧
    ∀ i c, proof.files.get i = some c → c ≠ [] → (phase i).pastFill = true
  | .reowned proof | .reproved proof => location = .packs ∧
    ∀ i c, proof.files.get i = some c → c ≠ [] → (phase i).released = true
  | .staged proof => location = .staging ∧
    ∀ i c, proof.files.get i = some c → c ≠ [] → (phase i).released = true
  | .condemned => location = .staging ∧ ∀ i, (phase i).locks = false ∧ (phase i).unfilled = false

structure Inv (s : State ι) : Prop where
  files : s.location ≠ .removed → ∀ i, FileFits (leaseContent (pid i)) (s.phase i) (s.tree.files.get i)
  relies : Relies s.phase s.location s.collector

structure Moves (s : State ι) (i : ι) (phase : Phase) (files : Files ι Bytes) : Prop where
  others : ∀ j, j ≠ i → files.get j = s.tree.files.get j
  fits : s.location ≠ .removed → FileFits (leaseContent (pid i)) (s.phase i) (s.tree.files.get i) →
    FileFits (leaseContent (pid i)) phase (files.get i)
  pastFill : (s.phase i).pastFill = true → phase.pastFill = true
  released : (s.phase i).released = true → phase.released = true
  -- a lease file is only created by path
  staged : s.location ≠ .packs → (phase.locks || phase.unfilled) = true →
    ((s.phase i).locks || (s.phase i).unfilled) = true

variable {pid}

variable {i : ι}

theorem Inv.moves (h : Inv pid s) {files : Files ι Bytes} (hm : Moves pid s i phase files) (directory : Bool) :
    Inv pid { s with tree := ⟨directory, files⟩, phase := update s.phase i phase } := by
  -- a property of phases that the step keeps for `i` is kept for all
  have hkeep : ∀ {P : Phase → Bool}, (P (s.phase i) = true → P phase = true) → ∀ j,
      P (s.phase j) = true → P (update s.phase i phase j) = true := by
    intro P hP j hj
    by_cases hji : j = i
    · subst hji
      simpa using hP hj
    · simpa [hji] using hj
  refine ⟨fun hloc j => ?_, ?_⟩
  · by_cases hji : j = i
    · subst hji
      simpa using hm.fits hloc (h.files hloc j)
    · simpa [hji, hm.others j hji] using h.files hloc j
  · have hr := h.relies
    cases hc : s.collector with
    | idle => trivial
    | owned => rwa [hc] at hr
    | proved proof | rechecked proof | authorized proof | revalidated proof =>
      rw [hc] at hr
      exact ⟨hr.1, fun j c hj hne => hkeep hm.pastFill j (hr.2 j c hj hne)⟩
    | reowned proof | reproved proof | staged proof =>
      rw [hc] at hr
      exact ⟨hr.1, fun j c hj hne => hkeep hm.released j (hr.2 j c hj hne)⟩
    | condemned =>
      rw [hc] at hr
      refine ⟨hr.1, fun j => ?_⟩
      by_cases hji : j = i
      · subst hji
        -- in staging no lease file can be created, so the open cannot come to one
        have hnot := hm.staged (by rw [hr.1]; decide)
        rw [(hr.2 j).1, (hr.2 j).2] at hnot
        simpa using hnot
      · simpa [hji] using hr.2 j

theorem leaseContent_ne_nil (pid : Nat) : leaseContent pid ≠ [] := by simp [leaseContent]

theorem write_eq (s : State ι) (i : ι) (data : Bytes) : ∃ files : Files ι Bytes,
    s.write i data = s.setFiles files ∧ (∀ j, j ≠ i → files.get j = s.tree.files.get j) ∧
    ((s.tree.files.get i).isSome → files.get i = some data) := by
  by_cases hsome : (s.tree.files.get i).isSome = true
  · refine ⟨s.tree.files.set i data, by simp [State.write, hsome], fun j hji => ?_, fun _ => ?_⟩
    · simp [hji]
    · simp
  · exact ⟨s.tree.files, by simp [State.write, hsome, State.setFiles], fun _ _ => rfl, fun h => absurd h hsome⟩

theorem Moves.phaseOnly
    (hfits : ∀ file, FileFits (leaseContent (pid i)) (s.phase i) file → FileFits (leaseContent (pid i)) phase file)
    (hpast : (s.phase i).pastFill → phase.pastFill) (hreleased : (s.phase i).released → phase.released)
    (hstaged : (phase.locks || phase.unfilled) → ((s.phase i).locks || (s.phase i).unfilled)) :
    Moves pid s i phase s.tree.files :=
  ⟨fun _ _ => rfl, fun _ h => hfits _ h, hpast, hreleased, fun _ h => hstaged h⟩

theorem Moves.write {files : Files ι Bytes} {data : Bytes} (hphase : s.phase i = .locked)
    (hpast : phase.pastFill) (hfits : FileFits (leaseContent (pid i)) phase (some data))
    (hothers : ∀ j, j ≠ i → files.get j = s.tree.files.get j)
    (hset : (s.tree.files.get i).isSome → files.get i = some data) : Moves pid s i phase files where
  others := hothers
  fits := by
    intro _ hfile
    rw [hphase] at hfile
    have hfile : s.tree.files.get i = some [] := hfile
    rw [hset (by simp [hfile])]
    exact hfits
  pastFill _ := hpast
  released h := by simp [hphase] at h
  staged _ _ := by simp [hphase]

variable {s' : State ι}

theorem openStep_moves (hs : openStep pid s action = some s') :
    ∃ i phase files directory, Moves pid s i phase files ∧
      s' = { s with tree := ⟨directory, files⟩, phase := update s.phase i phase } := by
  cases action with
  | openHandle i | makeLeaseDirectory i | openFiles i =>
    obtain ⟨⟨hp, _⟩, rfl⟩ := guard_eq_some.mp hs
    refine ⟨i, _, _, _, .phaseOnly ?_ ?_ ?_ ?_, rfl⟩ <;> simp [hp]
  | createLease i =>
    obtain ⟨⟨hp, hloc⟩, rfl⟩ := guard_eq_some.mp hs
    refine ⟨i, .created, s.tree.files.set i [], s.tree.directory, ⟨fun j hji => ?_, fun _ _ => ?_, ?_, ?_, ?_⟩, rfl⟩
    · simp [hji]
    · simp
    · simp [hp]
    · simp [hp]
    · exact (absurd hloc)
  | lockLease i | syncLease i =>
    obtain ⟨hp, rfl⟩ := guard_eq_some.mp hs
    refine ⟨i, _, _, s.tree.directory, .phaseOnly ?_ ?_ ?_ ?_, rfl⟩ <;> simp [hp]
  | fillLease i =>
    obtain ⟨hp, rfl⟩ := guard_eq_some.mp hs
    obtain ⟨files, hwrite, hothers, hset⟩ := write_eq s i (leaseContent (pid i))
    rw [hwrite]
    exact ⟨i, .filled, files, s.tree.directory, .write hp rfl rfl hothers hset, rfl⟩
  | fillPartly i written =>
    obtain ⟨hp, rfl⟩ := guard_eq_some.mp hs
    obtain ⟨files, hwrite, hothers, hset⟩ := write_eq s i ((leaseContent (pid i)).take written)
    rw [hwrite]
    exact ⟨i, .releasing, files, s.tree.directory, .write hp rfl trivial hothers hset, rfl⟩
  | share i =>
    cases hp : s.phase i with
    | opened references =>
      simp only [openStep, hp, ite_none_right_eq_some, some.injEq] at hs
      obtain ⟨_, rfl⟩ := hs
      refine ⟨i, .opened (references + 1), _, s.tree.directory, .phaseOnly ?_ ?_ ?_ ?_, rfl⟩ <;>
        simp [hp]
    | _ => simp [openStep, hp] at hs
  | close i =>
    cases hp : s.phase i with
    | opened references =>
      simp only [openStep, hp] at hs
      cases hs
      -- the last resolver gives the lock up, an earlier one only its reference
      refine ⟨i, if references ≤ 1 then .releasing else .opened (references - 1), _, s.tree.directory,
        .phaseOnly ?_ ?_ ?_ ?_, rfl⟩ <;> split <;>
        simp [hp]
    | _ => simp [openStep, hp] at hs
  | fail i =>
    obtain ⟨_, rfl⟩ := guard_eq_some.mp hs
    refine ⟨i, .releasing, _, s.tree.directory, .phaseOnly ?_ ?_ ?_ ?_, rfl⟩ <;>
      simp
  | release i =>
    obtain ⟨hp, rfl⟩ := guard_eq_some.mp hs
    by_cases hloc : s.location = .packs
    · refine ⟨i, .finished, s.tree.files.erase i, s.tree.directory, ⟨fun j hji => ?_, fun _ _ => trivial, ?_, ?_, ?_⟩,
        by simp [hloc, State.setFiles, State.setPhase]⟩
      · simp [hji]
      · simp
      · simp
      · exact fun hnot => absurd hloc hnot
    · refine ⟨i, .finished, s.tree.files, s.tree.directory, .phaseOnly ?_ ?_ ?_ ?_, by simp [hloc, State.setPhase]⟩ <;>
        simp
  | kill i =>
    cases hs
    refine ⟨i, .finished, _, s.tree.directory, .phaseOnly ?_ ?_ ?_ ?_, rfl⟩ <;>
      simp
  | _ => simp [openStep] at hs

/-! ## The collector -/

theorem same_get {a b : Tree ι} (h : a.same b) (i : ι) : a.files.get i = b.files.get i := by
  simp only [Tree.same, Bool.and_eq_true, List.all_eq_true, decide_eq_true_eq] at h
  obtain ⟨⟨_, ha⟩, hb⟩ := h
  -- a file that neither tree has is the same in both
  by_cases hi : i ∈ a.files.names
  · exact ha i hi
  · by_cases hi' : i ∈ b.files.names
    · exact hb i hi'
    · rw [Files.mem_names, ← isSome_iff_exists] at hi hi'
      rw [not_isSome_iff_eq_none.mp hi, not_isSome_iff_eq_none.mp hi']

theorem locks_of_activeLease (h : s.activeLease = false) {c : Bytes} (hfile : s.tree.files.get i = some c) :
    (s.phase i).locks = false := by
  simp only [State.activeLease, List.any_eq_false] at h
  exact Bool.eq_false_iff.mpr (h (i, c) (s.tree.files.get_eq_some_iff.mp hfile))

omit [DecidableEq ι] in
theorem activeLease_of_ownership (h : s.validateRemovalOwnership) : s.activeLease = false := by
  simp only [State.validateRemovalOwnership, Bool.and_eq_true, Bool.not_eq_true'] at h
  exact h.1

theorem FileFits.pastFill {content c : Bytes} (h : FileFits content phase (some c)) (hne : c ≠ []) :
    phase.pastFill = true := by
  cases phase <;> simp_all

theorem FileFits.content {content : Bytes} {file : Option Bytes} (h : FileFits content phase file)
    (hlocks : phase.locks) (hfilled : phase.unfilled = false) : file = some content := by
  cases phase <;> simp_all

theorem Phase.unfilled_of_pastFill (h : phase.pastFill) : phase.unfilled = false := by
  cases phase <;> simp_all

theorem Phase.released_of_pastFill (hpast : phase.pastFill) (hlocks : phase.locks = false) : phase.released = true := by
  cases phase <;> simp_all

theorem Phase.locks_of_released (h : phase.released) : phase.locks = false := by
  cases phase <;> simp_all

section

variable (h : Inv pid s)
include h

theorem Inv.released (hhere : s.location ≠ .removed) (hnone : s.activeLease = false) (hpast : (s.phase i).pastFill) :
    (s.phase i).released = true := by
  cases hlocks : (s.phase i).locks with
  | false => exact Phase.released_of_pastFill hpast hlocks
  | true =>
    have hfile := (h.files hhere i).content hlocks (Phase.unfilled_of_pastFill hpast)
    rw [locks_of_activeLease hnone hfile] at hlocks
    cases hlocks

theorem Inv.locks_of_same (hhere : s.location ≠ .removed) {proof : Tree ι} (hsame : s.tree.same proof)
    (hreleased : ∀ i c, proof.files.get i = some c → c ≠ [] → (s.phase i).released)
    (hfilled : (s.phase i).unfilled = false) : (s.phase i).locks = false := by
  cases hlocks : (s.phase i).locks with
  | false => rfl
  | true =>
    have hfile := (h.files hhere i).content hlocks hfilled
    rw [same_get hsame i] at hfile
    have hr := hreleased i _ hfile (leaseContent_ne_nil _)
    rw [Phase.locks_of_released hr] at hlocks
    cases hlocks

section

variable (hfilled : action = .proveStaged → ∀ i, (s.phase i).unfilled = false)
include hfilled

theorem collectStep_inv (hs : collectStep s action = some s') : Inv pid s' := by
  have hr := h.relies
  cases action with
  | checkOwnership =>
    cases hc : s.collector <;> simp only [collectStep, hc, guard_eq_some, reduceCtorEq] at hs
    obtain ⟨⟨hloc, _⟩, rfl⟩ := hs
    exact ⟨h.files, hloc⟩
  | captureProof =>
    cases hc : s.collector <;> simp only [collectStep, hc] at hs <;> cases hs
    rw [hc] at hr
    have hhere : s.location ≠ .removed := by rw [hr]; decide
    refine ⟨h.files, hr, fun i c hi hne => ?_⟩
    have hfits := h.files hhere i
    rw [hi] at hfits
    exact hfits.pastFill hne
  | recheckOwnership | recaptureProof | revalidateCandidate | captureProofAgain =>
    -- these only end the collector; what it relies on stays
    cases hc : s.collector <;> simp only [collectStep, hc, guard_eq_some, reduceCtorEq] at hs
    obtain ⟨_, rfl⟩ := hs
    rw [hc] at hr
    exact ⟨h.files, hr⟩
  | checkOwnershipAgain =>
    cases hc : s.collector <;> simp only [collectStep, hc, guard_eq_some, reduceCtorEq] at hs
    obtain ⟨howned, rfl⟩ := hs
    rw [hc] at hr
    have hhere : s.location ≠ .removed := by rw [hr.1]; decide
    exact ⟨h.files, hr.1, fun i c hi hne => h.released hhere (activeLease_of_ownership howned) (hr.2 i c hi hne)⟩
  | stage =>
    cases hc : s.collector <;> simp only [collectStep, hc] at hs <;> cases hs
    rw [hc] at hr
    have hhere : s.location ≠ .removed := by rw [hr.1]; decide
    exact ⟨fun _ => h.files hhere, rfl, hr.2⟩
  | proveStaged =>
    cases hc : s.collector <;> simp only [collectStep, hc, guard_eq_some, reduceCtorEq] at hs
    obtain ⟨hsame, rfl⟩ := hs
    rw [hc] at hr
    have hhere : s.location ≠ .removed := by rw [hr.1]; decide
    refine ⟨h.files, hr.1, fun i => ?_⟩
    have hi := hfilled rfl i
    exact ⟨h.locks_of_same hhere hsame hr.2 hi, hi⟩
  | restore =>
    cases hc : s.collector <;> simp only [collectStep, hc] at hs <;> cases hs
    rw [hc] at hr
    have hhere : s.location ≠ .removed := by rw [hr.1]; decide
    exact ⟨fun _ => h.files hhere, trivial⟩
  | removeAll =>
    cases hc : s.collector <;> simp only [collectStep, hc] at hs <;> cases hs
    exact ⟨absurd rfl, trivial⟩
  | giveUp =>
    cases hs
    exact ⟨h.files, trivial⟩
  | _ => simp [collectStep] at hs

/-! ## Runs -/

theorem step_inv (hs : step pid s action = some s') : Inv pid s' := by
  rcases or_eq_some_iff.mp hs with hopen | ⟨_, hcollect⟩
  · obtain ⟨i, phase, files, directory, hm, rfl⟩ := openStep_moves hopen
    exact h.moves hm directory
  · exact collectStep_inv h hfilled hcollect

end

end

variable (pid) in
/-- Whenever the run takes the staged proof, no open stands between creating its
    lease file and filling it. -/
def FilledAtProof (s : State ι) (actions : List (Action ι)) : Prop :=
  Along (step pid) (fun t action => action = .proveStaged → ∀ i, (t.phase i).unfilled = false) s actions

theorem initial_inv (tree : Tree ι) : Inv pid (State.initial tree) where
  files _ i := by
    show FileFits _ (if (tree.files.get i).isSome then Phase.finished else .idle) (tree.files.get i)
    cases hfile : tree.files.get i with
    | none | some c => simp
  relies := trivial

theorem run_inv {actions : List (Action ι)} (h : Inv pid s) (hf : FilledAtProof pid s actions)
    (hr : run pid s actions = some s') : Inv pid s' :=
  Along.invariant (fun _ _ _ hi hc hs => step_inv hi hc hs) actions h hf hr

/-- In every run of any number of opens next to the collector, `RemoveAll` finds no
    open that has returned and is not closed, as long as no open stands between
    creating and filling its lease file when the staged proof is taken. -/
theorem removeAll_finds_none_open (pid : ι → Nat) (tree : Tree ι) (actions : List (Action ι)) {s s' : State ι}
    (hfilled : FilledAtProof pid (State.initial tree) actions)
    (hrun : run pid (State.initial tree) actions = some s) (hremove : step pid s .removeAll = some s') :
    ∀ i, (s.phase i).isOpen = false := by
  have h := run_inv (initial_inv tree) hfilled hrun
  have hr := h.relies
  cases hc : s.collector with
  | condemned =>
    rw [hc] at hr
    intro i
    -- an open that has returned locks its lease file
    cases hp : s.phase i with
    | opened references =>
      have hlocks := (hr.2 i).1
      rw [hp] at hlocks
      cases hlocks
    | _ => rfl
  | _ => simp [step, openStep, collectStep, hc] at hremove

end

def toStage {ι : Type} : List (Action ι) :=
  [.checkOwnership, .captureProof, .recheckOwnership, .recaptureProof, .revalidateCandidate, .checkOwnershipAgain,
    .captureProofAgain, .stage]

def closedFirst : List (Action Unit) :=
  [.openHandle (), .makeLeaseDirectory (), .createLease (), .lockLease (), .fillLease (), .syncLease (), .openFiles (),
    .close (), .release ()] ++ toStage ++ [.proveStaged]

theorem removeAll_finds_none_open_closedFirst :
    ∃ s s', run (fun _ => 7) (State.initial ⟨false, .empty⟩) closedFirst = some s ∧
      step (fun _ => 7) s .removeAll = some s' ∧ (s.phase ()).isOpen = false := by
  refine ⟨_, _, rfl, rfl, removeAll_finds_none_open (fun _ => 7) ⟨false, .empty⟩ closedFirst ?_ rfl rfl ()⟩
  have hbefore : ∀ action ∈ closedFirst.dropLast, action ≠ .proveStaged := by decide
  refine Along.append closedFirst.dropLast (Along.of_forall _ fun _ action ha he => absurd he (hbefore action ha))
    fun s hs => ⟨fun _ i => ?_, fun _ _ => trivial⟩
  cases hs
  rfl

def createdBefore : List (Action Unit) :=
  [.openHandle (), .makeLeaseDirectory (), .createLease ()] ++ toStage ++
    [.proveStaged, .lockLease (), .fillLease (), .syncLease (), .openFiles ()]

/-- The generation is removed under an open resolver. -/
theorem removed_under_resolver : ∃ s s', run (fun _ => 7) (State.initial ⟨false, .empty⟩) createdBefore = some s ∧
      step (fun _ => 7) s .removeAll = some s' ∧ (s.phase ()).isOpen = true ∧ s'.location = .removed :=
  ⟨_, _, rfl, rfl, rfl, rfl⟩

end CodexFold.Pack.Leases
