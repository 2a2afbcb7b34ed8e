import CodexFold.Contain.Exact
import CodexFold.Foundation.Traces

/- Removing archived sessions whose records another session contains (`internal/prune`).

   A run compares the two rollouts, proves the recovery fold, takes the lock of the session
   it removes, renames that rollout away, deletes the thread row and purges the file. Any
   number of runs interleave here, step by step; rollouts do not change. The container is
   read once, before the lock is taken, and neither locked nor looked at again: two sessions
   with the same records can each be removed as contained in the other. -/
namespace CodexFold.Prune
open Foundation Contain List Option Function

structure Session where
  id : String
  path : String
  contents : Bytes
  deriving DecidableEq

structure Sessions where
  all : List Session
  path_ne : ∀ s ∈ all, s.path ≠ ""
  distinct : ∀ s ∈ all, ∀ t ∈ all, s.path = t.path → s = t

inductive Place where
  | rollout
  | pending
  | purge
  | gone
  deriving DecidableEq

/-- How far a run is. From `prepared` to `purged` these are the phases of its tombstone;
    a `failed` run has undone what it did, a `stranded` one could not restore the rollout it
    had isolated, and a `stopped` one has returned an error after the commit. -/
inductive Phase where
  | started
  | checked
  | proved
  | locked
  | prepared
  | isolated
  | committed
  | globalCleaned
  | purgeStaged
  | purged
  | failed
  | stranded
  | stopped
  deriving DecidableEq

def Phase.removing : Phase → Bool
  | .isolated | .committed | .globalCleaned | .purgeStaged | .purged | .stranded | .stopped => true
  | _ => false

/-- `Removed` of the result, which is set at the commit and returned with later errors too. -/
def Phase.removed : Phase → Bool
  | .committed | .globalCleaned | .purgeStaged | .purged | .stopped => true
  | _ => false

theorem Phase.removing_of_removed (phase : Phase) (h : phase.removed = true) : phase.removing = true := by
  cases phase <;> simp_all [removed, removing]

/-- A call of `RemoveContained` with `Apply`. -/
structure Run where
  contained : Session
  container : Session
  includeSessionMeta : Bool
  phase : Phase
  deriving DecidableEq

structure World where
  place : Session → Place
  rows : Session → Bool
  tombstones : Session → Bool
  locks : Session → Bool
  runs : List Run

def World.initial : World := ⟨fun _ => .rollout, fun _ => true, fun _ => false, fun _ => false, []⟩

namespace World

variable (w : World)

def move (s : Session) (place : Place) : World := { w with place := update w.place s place }

def unlock (s : Session) : World := { w with locks := update w.locks s false }

def abandon (s : Session) : World := { w.unlock s with tombstones := update w.tombstones s false }

end World

section
variable {Digest : Type} [DecidableEq Digest] (sha256 : Bytes → Digest) (envelopeType : Bytes → Option String)
variable {sessions : Sessions}

/-- `contain.Check` on the two rollouts: contained, and verified byte by byte. -/
def containment (r : Run) : Bool :=
  match check sha256 envelopeType ⟨r.contained.id, r.contained.path⟩ ⟨r.container.id, r.container.path⟩
      ⟨!r.includeSessionMeta⟩ []
      ((Files.empty.set r.contained.path r.contained.contents).set r.container.path r.container.contents) with
  | (.done result, _, _) => result.contained && result.verifiedExact
  | _ => false

variable (w : World)

def World.advance (r : Run) : World × Phase :=
  let s := r.contained
  match r.phase with
  | .started =>
    (w, if w.place s = .rollout ∧ w.place r.container = .rollout ∧ containment sha256 envelopeType r = true then .checked
      else .failed)
  -- `VerifySession`, the source against the fold, `Unfold`
  | .checked => (w, if w.place s = .rollout then .proved else .failed)
  | .proved => if w.locks s then (w, .failed) else ({ w with locks := update w.locks s true }, .locked)
  | .locked =>
    if w.tombstones s then (w.unlock s, .failed)
    else ({ w with tombstones := update w.tombstones s true }, .prepared)
  | .prepared =>
    if w.rows s ∧ w.place s = .rollout then (w.move s .pending, .isolated) else (w.abandon s, .failed)
  | .isolated => ({ w with rows := update w.rows s false }, .committed)
  | .committed => if w.rows s then (w.unlock s, .stopped) else (w, .globalCleaned)
  | .globalCleaned => if w.place s = .pending then (w.move s .purge, .purgeStaged) else (w.unlock s, .stopped)
  | .purgeStaged => if w.place s = .purge then ((w.move s .gone).unlock s, .purged) else (w.unlock s, .stopped)
  | .purged | .failed | .stranded | .stopped => (w, r.phase)

def World.abort (r : Run) : World × Phase :=
  let s := r.contained
  match r.phase with
  | .started | .checked | .proved => (w, .failed)
  | .locked => (w.unlock s, .failed)
  | .prepared => (w.abandon s, .failed)
  -- `restoreIsolatedSource`
  | .isolated => if w.place s = .pending then ((w.move s .rollout).abandon s, .failed) else (w.unlock s, .stranded)
  | .committed | .globalCleaned | .purgeStaged => (w.unlock s, .stopped)
  | .purged | .failed | .stranded | .stopped => (w, r.phase)

inductive Action where
  | removeContained (contained container : Session) (includeSessionMeta : Bool)
  | advance (run : Nat)
  | abort (run : Nat)

def World.take (index : Nat) (f : Run → World × Phase) : Option World :=
  w.runs[index]?.map fun r => { (f r).1 with runs := w.runs.set index { r with phase := (f r).2 } }

def step (sessions : Sessions) (w : World) : Action → Option World
  | .removeContained contained container includeSessionMeta =>
    if contained ∈ sessions.all ∧ container ∈ sessions.all ∧ contained ≠ container then
      some { w with runs := w.runs ++ [⟨contained, container, includeSessionMeta, .started⟩] }
    else none
  | .advance index => w.take index (w.advance sha256 envelopeType)
  | .abort index => w.take index w.abort

/-! ## Containment -/

/-- The comparable records of `a` occur contiguously in `b`. -/
def Contains (includeSessionMeta : Bool) (a b : Session) : Prop :=
  comparable envelopeType (!includeSessionMeta) a.contents <:+: comparable envelopeType (!includeSessionMeta) b.contents

instance (includeSessionMeta : Bool) (a b : Session) : Decidable (Contains envelopeType includeSessionMeta a b) :=
  inferInstanceAs (Decidable (_ <:+: _))

variable {envelopeType}

theorem Contains.ignoring {a b : Session} (h : Contains envelopeType true a b) : Contains envelopeType false a b := by
  have hall : ∀ data, comparable envelopeType false data = records data := by
    intro data
    have hnone : skips envelopeType false = fun _ => false := by
      funext record
      simp [skips]
    simp [comparable, skipped, hnone]
  obtain ⟨before, after, h⟩ := h
  simp only [Bool.not_true, hall] at h
  have hsuffix : comparable envelopeType true a.contents <:+ records a.contents := drop_suffix _ _
  show comparable envelopeType true a.contents <:+: comparable envelopeType true b.contents
  cases before with
  | nil =>
    cases hr : records a.contents with
    | nil => simp [comparable, hr]
    | cons r rest =>
      -- both rollouts begin with the same record, and it is ignored in both or in neither
      have hb : records b.contents = r :: (rest ++ after) := by rw [← h, hr]; rfl
      by_cases hs : skips envelopeType true r = true
      · simpa [comparable, skipped, hr, hb, hs] using (prefix_append rest after).isInfix
      · simpa [comparable, skipped, hr, hb, hs] using (prefix_append (r :: rest) after).isInfix
  | cons x before =>
    have htail : (records b.contents).drop 1 <:+ comparable envelopeType true b.contents := by
      refine drop_suffix_drop_left _ ?_
      exact (length_filter_le _ _).trans (length_take_le 1 _)
    refine hsuffix.isInfix.trans (IsInfix.trans ⟨before, after, ?_⟩ htail.isInfix)
    rw [← h]
    rfl

theorem Contains.trans {m m' : Bool} {a b c : Session} (hab : Contains envelopeType m a b)
    (hbc : Contains envelopeType m' b c) (hm : m → m') : Contains envelopeType m a c := by
  cases m with
  | true => exact IsInfix.trans hab (hm rfl ▸ hbc)
  | false =>
    cases m' with
    | false => exact IsInfix.trans hab hbc
    | true => exact IsInfix.trans hab hbc.ignoring

variable {r : Run}

theorem contains_of_containment (ha : r.contained ∈ sessions.all) (hb : r.container ∈ sessions.all)
    (hne : r.contained ≠ r.container) (h : containment sha256 envelopeType r) :
    Contains envelopeType r.includeSessionMeta r.contained r.container := by
  by_cases hempty : comparable envelopeType (!r.includeSessionMeta) r.contained.contents = []
  · unfold Contains
    rw [hempty]
    exact nil_infix
  have hpaths : r.contained.path ≠ r.container.path := fun hp => hne (sessions.distinct _ ha _ hb hp)
  have hneedle : ((Files.empty.set r.contained.path r.contained.contents).set r.container.path r.container.contents).get
      (Input.mk r.contained.id r.contained.path).path = some r.contained.contents := by simp [hpaths]
  have hfile : ((Files.empty.set r.contained.path r.contained.contents).set r.container.path r.container.contents).get
      (Input.mk r.container.id r.container.path).path = some r.container.contents := by simp
  obtain ⟨result, hyields, hcases⟩ := check_yields sha256 (sessions.path_ne _ ha) (sessions.path_ne _ hb) hneedle hfile
    (show comparable envelopeType (Options.mk (!r.includeSessionMeta)).ignoreSessionMeta _ ≠ [] from hempty)
  unfold containment at h
  rw [hyields.1.eq] at h
  rcases hcases with ⟨rfl, -⟩ | ⟨before, hleft, -⟩
  · simp [newResult] at h
  · obtain ⟨after, hafter⟩ := hleft.1
    exact ⟨before, after, hafter⟩

/-! ## Runs -/

/-- A session that the session of `r` contains was removed by a comparison that includes the
    session meta records, which `r` ignores. -/
def Mixed (envelopeType : Bytes → Option String) (w : World) (r : Run) : Prop :=
  r.includeSessionMeta = false ∧ ∃ p ∈ w.runs, p.phase.removing = true ∧ p.includeSessionMeta = true ∧
    Contains envelopeType true p.contained r.contained

instance (w : World) (r : Run) : Decidable (Mixed envelopeType w r) :=
  inferInstanceAs (Decidable (_ ∧ ∃ p ∈ w.runs, _))

/-- The run that is about to rename its rollout away finds its container, or another session
    that contains the container, still in place; in the mixed case that session contains the
    one that is removed together with its meta record. -/
def Meets (envelopeType : Bytes → Option String) (sessions : Sessions) (w : World) : Action → Prop
  | .advance index => ∀ r ∈ w.runs[index]?, r.phase = .prepared →
    ∃ y ∈ sessions.all, y ≠ r.contained ∧ w.place y = .rollout ∧
      (y = r.container ∨ Contains envelopeType r.includeSessionMeta r.container y) ∧
      (Mixed envelopeType w r → Contains envelopeType true r.contained y)
  | _ => True

instance (sessions : Sessions) (w : World) : (action : Action) → Decidable (Meets envelopeType sessions w action)
  | .advance index => inferInstanceAs (Decidable (∀ r ∈ w.runs[index]?, _))
  | .removeContained .. => inferInstanceAs (Decidable True)
  | .abort _ => inferInstanceAs (Decidable True)

/-- Every run is over two sessions of the set, its check was right, and what it removes is
    held by a session in place. -/
structure Sound (envelopeType : Bytes → Option String) (sessions : Sessions) (w : World) : Prop where
  pair : ∀ r ∈ w.runs, r.contained ∈ sessions.all ∧ r.container ∈ sessions.all ∧ r.contained ≠ r.container
  checked : ∀ r ∈ w.runs, r.phase ≠ .started → r.phase ≠ .failed →
    Contains envelopeType r.includeSessionMeta r.contained r.container
  held : ∀ r ∈ w.runs, r.phase.removing = true →
    ∃ y ∈ sessions.all, w.place y = .rollout ∧ Contains envelopeType r.includeSessionMeta r.contained y

variable {w : World} {w' : World}

theorem Sound.of_cases {q : Run} (h : Sound envelopeType sessions w) (hruns : ∀ p ∈ w'.runs, p ∈ w.runs ∨ p = q)
    (hpair : q.contained ∈ sessions.all ∧ q.container ∈ sessions.all ∧ q.contained ≠ q.container)
    (hchecked : q.phase ≠ .started → q.phase ≠ .failed → Contains envelopeType q.includeSessionMeta q.contained q.container)
    (hheld : ∀ p, p ∈ w.runs ∨ p = q → p.phase.removing → ∃ y ∈ sessions.all, w'.place y = .rollout ∧ Contains envelopeType p.includeSessionMeta p.contained y) :
    Sound envelopeType sessions w' := by
  refine ⟨fun p hp => ?_, fun p hp hs hf => ?_, fun p hp hrem => hheld p (hruns p hp) hrem⟩
  · rcases hruns p hp with hp | rfl
    · exact h.pair p hp
    · exact hpair
  · rcases hruns p hp with hp | rfl
    · exact h.checked p hp hs hf
    · exact hchecked hs hf

/-- A step that takes no rollout away, of a run that was removing already if it is now and
    that has passed its check. -/
structure Quiet (envelopeType : Bytes → Option String) (w : World) (r : Run) (next : World × Phase) : Prop where
  place : ∀ y, w.place y = .rollout → next.1.place y = .rollout
  removing : next.2.removing = true → r.phase.removing = true
  checked : next.2 ≠ .started → next.2 ≠ .failed → r.phase ≠ .started ∧ r.phase ≠ .failed ∨
    containment sha256 envelopeType r = true

theorem Sound.quiet {index : Nat} {next : World × Phase} (h : Sound envelopeType sessions w)
    (hr : w.runs[index]? = some r) (hq : Quiet sha256 envelopeType w r next) :
    Sound envelopeType sessions { next.1 with runs := w.runs.set index { r with phase := next.2 } } := by
  have hmem : r ∈ w.runs := mem_of_getElem? hr
  refine h.of_cases (fun p hp => mem_or_eq_of_mem_set hp) (h.pair r hmem) (fun hs hf => ?_) (fun p hp hrem => ?_)
  · rcases hq.checked hs hf with hpast | hc
    · exact h.checked r hmem hpast.1 hpast.2
    · obtain ⟨ha, hb, hne⟩ := h.pair r hmem
      exact contains_of_containment sha256 ha hb hne hc
  · have hheld : ∃ y ∈ sessions.all, w.place y = .rollout ∧ Contains envelopeType p.includeSessionMeta p.contained y := by
      rcases hp with hp | rfl
      · exact h.held p hp hrem
      · exact h.held r hmem (hq.removing hrem)
    obtain ⟨y, hy, hin, hc⟩ := hheld
    exact ⟨y, hy, hq.place y hin, hc⟩

theorem World.place_move {s y : Session} {place : Place} (h : w.place s ≠ .rollout ∨ place = .rollout)
    (hy : w.place y = .rollout) : (w.move s place).place y = .rollout := by
  by_cases hys : y = s
  · subst hys
    rcases h with h | rfl
    · exact absurd hy h
    · simp [World.move]
  · simpa [World.move, hys] using hy

theorem Sound.isolate {index : Nat} (h : Sound envelopeType sessions w) (hr : w.runs[index]? = some r)
    (hphase : r.phase = .prepared) (hmeets : Meets envelopeType sessions w (.advance index)) :
    Sound envelopeType sessions { w.move r.contained .pending with runs := w.runs.set index { r with phase := .isolated } } := by
  have hmem : r ∈ w.runs := mem_of_getElem? hr
  have hcheck := h.checked r hmem (by rw [hphase]; decide) (by rw [hphase]; decide)
  obtain ⟨z, hz, hzne, hzin, hzc, hmeta⟩ := hmeets r hr hphase
  have hholds : Contains envelopeType r.includeSessionMeta r.contained z := by
    rcases hzc with rfl | hzc
    · exact hcheck
    · exact hcheck.trans hzc (fun hm => hm)
  have hother : ∀ y, y ≠ r.contained → w.place y = .rollout → (w.move r.contained .pending).place y = .rollout := by
    intro y hy hin
    simpa [World.move, hy] using hin
  refine h.of_cases (fun p hp => mem_or_eq_of_mem_set hp) (h.pair r hmem) (fun _ _ => hcheck) (fun p hp hrem => ?_)
  rcases hp with hp | rfl
  · obtain ⟨y, hy, hin, hc⟩ := h.held p hp hrem
    by_cases hyc : y = r.contained
    · subst hyc
      -- what `p` removed is in this session, and this session is in `z`
      refine ⟨z, hz, hother z hzne hzin, ?_⟩
      by_cases hmixed : p.includeSessionMeta = true ∧ r.includeSessionMeta = false
      · rw [hmixed.1] at hc ⊢
        exact hc.trans (hmeta ⟨hmixed.2, p, hp, hrem, hmixed.1, hc⟩) fun hm => hm
      · refine hc.trans hholds fun hm => ?_
        cases hri : r.includeSessionMeta with
        | true => rfl
        | false => exact absurd ⟨hm, hri⟩ hmixed
    · exact ⟨y, hy, hother y hyc hin, hc⟩
  · exact ⟨z, hz, hother z hzne hzin, hholds⟩

theorem Quiet.failed (hplace : ∀ y, w.place y = .rollout → w'.place y = .rollout) :
    Quiet sha256 envelopeType w r (w', .failed) :=
  ⟨hplace, nofun, fun _ hf => absurd rfl hf⟩

theorem Quiet.past {old new : Phase} (hphase : r.phase = old) (hold : old ≠ .started ∧ old ≠ .failed)
    (hrem : new.removing → old.removing) (hplace : ∀ y, w.place y = .rollout → w'.place y = .rollout) :
    Quiet sha256 envelopeType w r (w', new) := by
  subst hphase
  exact ⟨hplace, hrem, fun _ _ => .inl hold⟩

theorem advance_quiet (w : World) (r : Run) :
    r.phase = .prepared ∧ w.advance sha256 envelopeType r = (w.move r.contained .pending, .isolated) ∨
      Quiet sha256 envelopeType w r (w.advance sha256 envelopeType r) := by
  unfold World.advance
  cases hphase : r.phase with
  | prepared =>
    simp only
    split
    · exact .inl ⟨trivial, rfl⟩
    · exact .inr (.failed _ fun _ hy => hy)
  | started =>
    refine .inr ⟨fun _ hy => hy, ?_, ?_⟩
    · simp only
      split <;> exact nofun
    · simp only
      split
      next hc => exact fun _ _ => .inr hc.2.2
      next => exact fun _ hf => absurd rfl hf
  | globalCleaned | purgeStaged =>
    simp only
    split
    next hplace =>
      refine .inr (.past _ hphase (by decide) (fun _ => rfl) fun y hy => World.place_move (.inl ?_) hy)
      rw [hplace]
      decide
    next => exact .inr (.past _ hphase (by decide) (fun _ => rfl) fun _ hy => hy)
  | purged | stranded | stopped | isolated =>
    exact .inr (.past _ hphase (by decide) (fun _ => rfl) fun _ hy => hy)
  | failed => exact .inr (.failed _ fun _ hy => hy)
  | checked | proved | locked | committed =>
    simp only
    split <;> exact .inr (.past _ hphase (by decide) (by decide) fun _ hy => hy)

theorem abort_quiet (w : World) (r : Run) : Quiet sha256 envelopeType w r (w.abort r) := by
  unfold World.abort
  cases hphase : r.phase with
  | isolated =>
    simp only
    split
    · exact .failed _ fun y hy => World.place_move (.inr rfl) hy
    · exact .past _ hphase (by decide) (fun _ => rfl) fun _ hy => hy
  | started | checked | proved | locked | prepared | failed => exact .failed _ fun _ hy => hy
  | committed | globalCleaned | purgeStaged | purged | stranded | stopped =>
    exact .past _ hphase (by decide) (fun _ => rfl) fun _ hy => hy

theorem step_sound {action : Action} (h : Sound envelopeType sessions w) (hmeets : Meets envelopeType sessions w action)
    (hs : step sha256 envelopeType sessions w action = some w') : Sound envelopeType sessions w' := by
  cases action with
  | removeContained a b m =>
    obtain ⟨hpair, rfl⟩ := guard_eq_some.mp hs
    refine h.of_cases (fun p hp => by simpa using hp) hpair (absurd rfl)
      (fun p hp hrem => ?_)
    rcases hp with hp | rfl
    · exact h.held p hp hrem
    · cases hrem
  | advance index =>
    simp only [step, World.take, map_eq_some_iff] at hs
    obtain ⟨r, hr, rfl⟩ := hs
    rcases advance_quiet sha256 w r with ⟨hphase, hnext⟩ | hq
    · rw [hnext]
      exact h.isolate hr hphase hmeets
    · exact h.quiet sha256 hr hq
  | abort index =>
    simp only [step, World.take, map_eq_some_iff] at hs
    obtain ⟨r, hr, rfl⟩ := hs
    exact h.quiet sha256 hr (abort_quiet sha256 w r)

end

def twin (id : String) : Session := ⟨id, id, [97, 10]⟩

def pair : Sessions where
  all := [twin "a", twin "b"]
  path_ne := by decide
  distinct := by decide

def twins : Sessions where
  all := [twin "a", twin "b", twin "c"]
  path_ne := by decide
  distinct := by decide

end CodexFold.Prune
