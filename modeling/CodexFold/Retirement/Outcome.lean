import CodexFold.Retirement.Control

/- A retirement has one outcome, unless the reload removes an answer it has not looked at. -/
namespace CodexFold.Retirement
open Foundation List

namespace World

variable (w : World)

/-- No request has been answered both ways, and the answer of the present request is in
    place once it has been written. -/
def OneOutcome : Prop :=
  (∀ a ∈ w.written, ∀ b ∈ w.written, a.token = b.token → (a.error = "" ↔ b.error = "")) ∧
    ∀ a ∈ w.written, ∀ r, w.directory.request = some r → a.token = r.token → w.directory.acknowledgement = some a

def spares : Action → Bool
  | .daemon _ =>
    match w.daemon, w.directory.readRetirementRequest, w.directory.acknowledgement with
    | .stale, some r, some a => a.token != r.token
    | _, _, _ => true
  | _ => true

/-- The command writes its request where there is none. -/
def InitiatorFits : Prop :=
  match w.initiator with
  | .idle => True
  | .looked _ | .cleared _ => w.directory.request = none

/-- The reload answers, under the lock, a request that is there and has no answer. -/
def DaemonFits : Prop :=
  match w.daemon with
  | .idle | .stale | .seen _ => True
  | .locked _ => w.lock = some .daemon
  | .rechecked r => w.lock = some .daemon ∧ w.directory.readRetirementRequest = some r
  | .judging r | .rejecting r _ | .committing r =>
    w.lock = some .daemon ∧ w.directory.readRetirementRequest = some r ∧ w.directory.acknowledgement = none

/-- So does the recovery, which also removes the request it has seen through. -/
def RecoveryFits : Prop :=
  match w.recovery with
  | .idle | .found => True
  | .locked | .removing => w.lock = some .recovery
  | .planned r | .finishing r | .restoring r | .clearing r _ => w.lock = some .recovery ∧ w.directory.request = some r
  | .judging r status =>
    w.lock = some .recovery ∧ w.directory.request = some r ∧ (status = .absent → w.directory.acknowledgement = none)
  | .rejecting r _ | .committing r =>
    w.lock = some .recovery ∧ w.directory.request = some r ∧ w.directory.acknowledgement = none
  | .removed =>
    w.lock = some .recovery ∧ ∀ a ∈ w.written, ∀ r, w.directory.request = some r → a.token ≠ r.token

/-- What every run keeps. A request has at most one answer, `written` once, and it stays
    as long as the request. -/
structure Sound (w : World) : Prop where
  requested : ∀ r, w.directory.request = some r → r.token < w.fresh
  numbered : ∀ a ∈ w.written, a.token < w.fresh
  answered : ∀ a, w.directory.acknowledgement = some a → a ∈ w.written
  single : ∀ a ∈ w.written, ∀ b ∈ w.written, a.token = b.token → a = b
  kept : ∀ a ∈ w.written, ∀ r, w.directory.request = some r → a.token = r.token → w.directory.acknowledgement = some a
  initiator : w.InitiatorFits
  daemon : w.DaemonFits
  recovery : w.RecoveryFits

theorem initial_sound : initial.Sound := by
  constructor <;> simp [initial, InitiatorFits, DaemonFits, RecoveryFits]

theorem Sound.oneOutcome {w : World} (h : w.Sound) : w.OneOutcome :=
  ⟨fun a ha b hb htoken => by rw [h.single a ha b hb htoken], h.kept⟩

end World

variable {r : Control}

theorem absent_of_validate {acknowledgement : Option Control}
    (h : validateRetirementAcknowledgement acknowledgement r = .ok .absent) : acknowledgement = none := by
  unfold validateRetirementAcknowledgement at h
  cases acknowledgement with
  | none => rfl
  | some a => grind

theorem Directory.readRetirementRequest_eq {d : Directory} :
    d.readRetirementRequest = some r ↔ d.active ∧ d.request = some r := by
  unfold Directory.readRetirementRequest
  cases d.active <;> simp

theorem Directory.absent_of_read {d : Directory} (hactive : d.active)
    (h : d.readAcknowledgement r = .ok .absent) : d.acknowledgement = none := by
  unfold Directory.readAcknowledgement at h
  rw [hactive, if_pos rfl] at h
  exact absent_of_validate h

namespace World
variable {w : World}
variable {r : Control} {recovery : Recovery}

theorem Sound.ite {c : Prop} [Decidable c] {t : World} (h : w.Sound) (ht : t.Sound) : (if c then w else t).Sound := by
  split <;> assumption

/-! What is asked of the reload and of the recovery outlives a lock that stays with its
    holder, an answer that is removed, and a request that is published where there was none. -/

theorem DaemonFits.relock {lock : Option Actor} (h : w.DaemonFits)
    (hlock : w.lock = some .daemon → lock = some .daemon) : ({ w with lock := lock } : World).DaemonFits := by
  unfold DaemonFits at h ⊢
  cases hpc : w.daemon with
  | idle | stale | seen r => trivial
  | locked r =>
    rw [hpc] at h
    exact hlock h
  | rechecked r | judging r | rejecting r message | committing r =>
    rw [hpc] at h
    exact ⟨hlock h.1, h.2⟩

theorem RecoveryFits.relock {lock : Option Actor} (h : w.RecoveryFits)
    (hlock : w.lock = some .recovery → lock = some .recovery) : ({ w with lock := lock } : World).RecoveryFits := by
  unfold RecoveryFits at h ⊢
  cases hpc : w.recovery with
  | idle | found => trivial
  | locked | removing =>
    rw [hpc] at h
    exact hlock h
  | planned r | finishing r | restoring r | clearing r positive | judging r status | rejecting r message | committing r
  | removed =>
    rw [hpc] at h
    exact ⟨hlock h.1, h.2⟩

theorem DaemonFits.forget (h : w.DaemonFits) : ({ w with directory.acknowledgement := none } : World).DaemonFits := by
  unfold DaemonFits at h ⊢
  cases hpc : w.daemon with
  | idle | stale | seen r => trivial
  | locked r | rechecked r =>
    rw [hpc] at h
    exact h
  | judging r | rejecting r message | committing r =>
    rw [hpc] at h
    exact ⟨h.1, h.2.1, rfl⟩

theorem RecoveryFits.forget (h : w.RecoveryFits) :
    ({ w with directory.acknowledgement := none } : World).RecoveryFits := by
  unfold RecoveryFits at h ⊢
  cases hpc : w.recovery with
  | idle | found => trivial
  | locked | removing | planned r | finishing r | restoring r | clearing r positive | removed =>
    rw [hpc] at h
    exact h
  | judging r status =>
    rw [hpc] at h
    exact ⟨h.1, h.2.1, fun _ => rfl⟩
  | rejecting r message | committing r =>
    rw [hpc] at h
    exact ⟨h.1, h.2.1, rfl⟩

theorem DaemonFits.publish (h : w.DaemonFits) (hnone : w.directory.request = none) :
    ({ w with directory.request := some r } : World).DaemonFits := by
  have hread : ∀ s, w.directory.readRetirementRequest ≠ some s := fun s hs => by
    rw [(Directory.readRetirementRequest_eq.mp hs).2] at hnone
    cases hnone
  unfold DaemonFits at h ⊢
  cases hpc : w.daemon with
  | idle | stale | seen s => trivial
  | locked s =>
    rw [hpc] at h
    exact h
  | rechecked s =>
    rw [hpc] at h
    exact absurd h.2 (hread s)
  | judging s | rejecting s message | committing s =>
    rw [hpc] at h
    exact absurd h.2.1 (hread s)

theorem RecoveryFits.publish (h : w.RecoveryFits) (hnone : w.directory.request = none)
    (hnew : ∀ a ∈ w.written, a.token ≠ r.token) : ({ w with directory.request := some r } : World).RecoveryFits := by
  have hreq : ∀ s, w.directory.request ≠ some s := fun s hs => by
    rw [hs] at hnone
    cases hnone
  unfold RecoveryFits at h ⊢
  cases hpc : w.recovery with
  | idle | found => trivial
  | locked | removing =>
    rw [hpc] at h
    exact h
  | planned s | finishing s | restoring s | clearing s positive =>
    rw [hpc] at h
    exact absurd h.2 (hreq s)
  | judging s status | rejecting s message | committing s =>
    rw [hpc] at h
    exact absurd h.2.1 (hreq s)
  | removed =>
    rw [hpc] at h
    refine ⟨h.1, fun a ha s hs => ?_⟩
    obtain rfl := Option.some.inj hs
    exact hnew a ha

theorem released {actor other : Actor} (hne : other ≠ actor) (h : w.lock = some other) :
    (if w.lock = some actor then none else w.lock) = some other := by
  rw [h, if_neg fun heq => hne (Option.some.inj heq)]

theorem Sound.stop (h : w.Sound) (actor : Actor) : (w.stop actor).Sound := by
  cases actor with
  | initiator => exact { h with initiator := trivial }
  | daemon => exact { h with daemon := trivial, recovery := h.recovery.relock (released (by decide)) }
  | recovery => exact { h with daemon := h.daemon.relock (released (by decide)), recovery := trivial }

theorem Sound.unanswered (h : w.Sound) (hrequest : w.directory.request = some r)
    (hnone : w.directory.acknowledgement = none) : ∀ b ∈ w.written, b.token ≠ r.token := by
  intro b hb htoken
  have := h.kept b hb r hrequest htoken
  rw [hnone] at this
  cases this

variable {a : Control}

section

variable (h : w.Sound)
include h

theorem Sound.acknowledge (hrequest : w.directory.request = some r) (hnone : w.directory.acknowledgement = none)
    (htoken : a.token = r.token) (hdaemon : (w.acknowledge a).DaemonFits) (hrecovery : (w.acknowledge a).RecoveryFits) :
    (w.acknowledge a).Sound := by
  have hother := h.unanswered hrequest hnone
  have hfresh := h.requested r hrequest
  refine ⟨h.requested, ?_, ?_, ?_, ?_, h.initiator, hdaemon, hrecovery⟩
  · intro b hb
    rcases mem_append.mp hb with hb | hb
    · exact h.numbered b hb
    · rw [mem_singleton.mp hb, htoken]
      exact hfresh
  · intro b hb
    exact mem_append_right _ (by simpa using (Option.some.inj hb).symm)
  · intro b hb c hc hbc
    rcases mem_append.mp hb with hb | hb <;> rcases mem_append.mp hc with hc | hc
    · exact h.single b hb c hc hbc
    · rw [mem_singleton.mp hc, htoken] at hbc
      exact absurd hbc (hother b hb)
    · rw [mem_singleton.mp hb, htoken] at hbc
      exact absurd hbc.symm (hother c hc)
    · rw [mem_singleton.mp hb, mem_singleton.mp hc]
  · intro b hb s hs hbs
    obtain rfl : r = s := Option.some.inj (hrequest.symm.trans hs)
    rcases mem_append.mp hb with hb | hb
    · exact absurd hbs (hother b hb)
    · rw [mem_singleton.mp hb]
      rfl

theorem Sound.forget (hother : ∀ a ∈ w.written, ∀ r, w.directory.request = some r → a.token ≠ r.token) :
    ({ w with directory.acknowledgement := none } : World).Sound :=
  ⟨h.requested, h.numbered, nofun, h.single, fun a ha r hr ht => absurd ht (hother a ha r hr),
    h.initiator, h.daemon.forget, h.recovery.forget⟩

theorem Sound.publish (hnone : w.directory.request = none) :
    ({ w with
        directory.request := some { r with token := w.fresh, error := "" }
        fresh := w.fresh + 1
        initiator := .idle } : World).Sound := by
  have hnew : ∀ a ∈ w.written, a.token ≠ w.fresh := fun a ha => Nat.ne_of_lt (h.numbered a ha)
  refine ⟨?_, fun a ha => Nat.lt_succ_of_lt (h.numbered a ha), h.answered, h.single, ?_, trivial,
    h.daemon.publish hnone, h.recovery.publish hnone hnew⟩
  · intro s hs
    obtain rfl := Option.some.inj hs
    exact Nat.lt_succ_self _
  · intro a ha s hs htoken
    obtain rfl := Option.some.inj hs
    exact absurd htoken (hnew a ha)

theorem Sound.initiatorStep : w.initiatorStep.Sound := by
  have hfits := h.initiator
  unfold InitiatorFits at hfits
  unfold World.initiatorStep
  cases hpc : w.initiator with
  | idle => exact h
  | looked r =>
    rw [hpc] at hfits
    dsimp only
    unfold removeAcknowledgement
    split
    · have hgone := h.forget fun a _ s hs => by rw [hfits] at hs; cases hs
      exact { hgone with initiator := hfits }
    · exact { h with initiator := hfits }
  | cleared r =>
    rw [hpc] at hfits
    exact Sound.ite (h.publish hfits) (h.stop .initiator)

theorem Sound.daemonMoves {lock : Option Actor} {daemon : Daemon}
    (hdaemon : ({ w with lock := lock, daemon := daemon } : World).DaemonFits)
    (hrecovery : ({ w with lock := lock, daemon := daemon } : World).RecoveryFits) :
    ({ w with lock := lock, daemon := daemon } : World).Sound :=
  { h with daemon := hdaemon, recovery := hrecovery }

omit h in
theorem DaemonFits.unanswered (h : w.lock = some .daemon ∧ w.directory.readRetirementRequest = some r)
    (hread : w.directory.readAcknowledgement r = .ok .absent) :
    w.lock = some .daemon ∧ w.directory.readRetirementRequest = some r ∧ w.directory.acknowledgement = none :=
  ⟨h.1, h.2, Directory.absent_of_read (Directory.readRetirementRequest_eq.mp h.2).1 hread⟩

theorem Sound.daemonAnswers (hlock : w.lock = some .daemon) (hrequest : w.directory.readRetirementRequest = some r)
    (hnone : w.directory.acknowledgement = none) (htoken : a.token = r.token) :
    (if w.directory.active then (w.acknowledge a).stop .daemon else w.stop .daemon).Sound := by
  obtain ⟨hactive, hrequest⟩ := Directory.readRetirementRequest_eq.mp hrequest
  rw [hactive, if_pos rfl]
  have hidle : w.recovery = .idle ∨ w.recovery = .found := by
    have hrecovery := h.recovery
    unfold RecoveryFits at hrecovery
    grind
  -- the call is over, so that nothing is asked of it any more
  have hbefore : ({ w with daemon := .idle } : World).Sound :=
    { h with daemon := trivial }
  have hrecovery : ({ w with daemon := .idle } : World).acknowledge a |>.RecoveryFits := by
    rcases hidle with hidle | hidle <;> simp [RecoveryFits, World.acknowledge, hidle]
  exact (hbefore.acknowledge hrequest hnone htoken trivial hrecovery).stop .daemon

theorem Sound.daemonStep {verdict : Verdict} (hspares : w.spares (.daemon verdict)) : (w.daemonStep verdict).Sound := by
  have hdaemon := h.daemon
  have hrecovery := h.recovery
  unfold World.daemonStep
  unfold DaemonFits at hdaemon
  unfold RecoveryFits at hrecovery
  cases hpc : w.daemon with
  | idle => cases w.directory.readRetirementRequest <;> exact h.daemonMoves trivial hrecovery
  | stale =>
    refine Sound.stop ?_ .daemon
    unfold removeAcknowledgement
    split
    · refine h.forget fun a ha r hr htoken => ?_
      -- the answer of the present request is the one in place
      have hread := Directory.readRetirementRequest_eq.mpr ⟨by assumption, hr⟩
      have hkept := h.kept a ha r hr htoken
      simp [spares, hpc, hread, hkept, htoken] at hspares
    · exact h
  | seen r =>
    dsimp only
    split
    · next hfree =>
      refine h.daemonMoves (by simp [DaemonFits]) (h.recovery.relock fun hlock => ?_)
      rw [hfree] at hlock
      cases hlock
    · exact h.stop .daemon
  | locked r =>
    rw [hpc] at hdaemon
    dsimp only
    split
    · exact h.daemonMoves ⟨hdaemon, by assumption⟩ hrecovery
    · exact h.stop .daemon
  | rechecked r =>
    rw [hpc] at hdaemon
    dsimp only
    split
    · exact h.daemonMoves (DaemonFits.unanswered hdaemon (by assumption)) hrecovery
    · exact h.stop .daemon
  | judging r =>
    rw [hpc] at hdaemon
    cases verdict with
    | again => exact h
    | commit => exact h.daemonMoves hdaemon hrecovery
    | reject message =>
      dsimp only
      split
      · exact h.daemonMoves hdaemon hrecovery
      · exact h.stop .daemon
  | rejecting r message | committing r =>
    rw [hpc] at hdaemon
    exact h.daemonAnswers hdaemon.1 hdaemon.2.1 hdaemon.2.2 rfl

theorem Sound.recoveryMoves {active : Bool} {lock : Option Actor}
    (hdaemon : ({ w with directory.active := active, lock := lock, recovery := recovery } : World).DaemonFits)
    (hrecovery : ({ w with directory.active := active, lock := lock, recovery := recovery } : World).RecoveryFits) :
    ({ w with directory.active := active, lock := lock, recovery := recovery } : World).Sound :=
  { h with daemon := hdaemon, recovery := hrecovery }

theorem Sound.daemon_waits (hlock : w.lock = some .recovery) {directory : Directory} {written : List Control} :
    ({ w with directory := directory, recovery := recovery, written := written } : World).DaemonFits := by
  have hdaemon := h.daemon
  unfold DaemonFits at hdaemon ⊢
  grind

theorem Sound.recoveryAnswers (hlock : w.lock = some .recovery) (hrequest : w.directory.request = some r)
    (hnone : w.directory.acknowledgement = none) (htoken : a.token = r.token)
    (hpc : recovery = .restoring r ∨ recovery = .finishing r) :
    ({ w.acknowledge a with recovery := recovery } : World).Sound := by
  have hbefore : ({ w with recovery := recovery } : World).Sound := by
    refine h.recoveryMoves (h.daemon_waits hlock) ?_
    rcases hpc with rfl | rfl <;> exact ⟨hlock, hrequest⟩
  refine hbefore.acknowledge hrequest hnone htoken (h.daemon_waits hlock) ?_
  rcases hpc with rfl | rfl <;> exact ⟨hlock, hrequest⟩

theorem Sound.recoveryStep (verdict : Verdict) : (w.recoveryStep verdict).Sound := by
  have hrecovery := h.recovery
  unfold World.recoveryStep
  unfold RecoveryFits at hrecovery
  cases hpc : w.recovery with
  | idle =>
    dsimp only
    split
    · exact h.recoveryMoves h.daemon trivial
    · exact h
  | found =>
    dsimp only
    split
    · next hfree =>
      refine h.recoveryMoves (h.daemon.relock fun hlock => ?_) (by simp [RecoveryFits])
      rw [hfree] at hlock
      cases hlock
    · exact h.stop .recovery
  | locked =>
    rw [hpc] at hrecovery
    dsimp only
    split
    · exact h.stop .recovery
    · exact h.recoveryMoves h.daemon ⟨hrecovery, by assumption⟩
  | planned r =>
    rw [hpc] at hrecovery
    dsimp only
    split
    · split
      · refine h.recoveryMoves h.daemon ⟨hrecovery.1, hrecovery.2, ?_⟩
        rintro rfl
        exact absent_of_validate (by assumption)
      · exact h.stop .recovery
    · exact h.stop .recovery
  | judging r status =>
    rw [hpc] at hrecovery
    obtain ⟨hlock, hrequest, habsent⟩ := hrecovery
    dsimp only
    split
    · exact h.recoveryMoves h.daemon ⟨hlock, hrequest⟩
    · exact h.recoveryMoves h.daemon ⟨hlock, hrequest⟩
    · exact h.recoveryMoves h.daemon ⟨hlock, hrequest, habsent rfl⟩
    · exact h.recoveryMoves h.daemon ⟨hlock, hrequest⟩
    · split
      · exact h.recoveryMoves h.daemon ⟨hlock, hrequest, absent_of_validate (by assumption)⟩
      · exact h.recoveryMoves h.daemon ⟨hlock, hrequest⟩
      · exact h.stop .recovery
  | rejecting r message =>
    rw [hpc] at hrecovery
    exact h.recoveryAnswers hrecovery.1 hrecovery.2.1 hrecovery.2.2 rfl (.inl rfl)
  | committing r =>
    rw [hpc] at hrecovery
    exact h.recoveryAnswers hrecovery.1 hrecovery.2.1 hrecovery.2.2 rfl (.inr rfl)
  | finishing r | restoring r =>
    rw [hpc] at hrecovery
    exact h.recoveryMoves (h.daemon_waits hrecovery.1) hrecovery
  | clearing r positive =>
    rw [hpc] at hrecovery
    exact Sound.ite (h.recoveryMoves h.daemon hrecovery.1) (h.stop .recovery)
  | removing =>
    rw [hpc] at hrecovery
    refine ⟨nofun, h.numbered, h.answered, h.single, nofun, ?_,
      h.daemon_waits hrecovery, hrecovery, nofun⟩
    unfold InitiatorFits
    split <;> trivial
  | removed =>
    rw [hpc] at hrecovery
    simpa only [hpc] using (h.forget hrecovery.2).stop .recovery

theorem Sound.step {action : Action} (hspares : w.spares action) : (w.step action).Sound := by
  cases action with
  | createRetirementRequest r =>
    simp only [World.step]
    split
    · rename_i hidle
      exact { h with initiator := hidle.2.2 }
    · exact h
  | initiator => exact h.initiatorStep
  | daemon verdict => exact h.daemonStep hspares
  | recovery verdict => exact h.recoveryStep verdict
  | stop actor => exact h.stop actor

theorem Sound.not_oneOutcome {action : Action} (hspares : w.spares action = false) : ¬(w.step action).OneOutcome := by
  unfold spares at hspares
  split at hspares
  · rename_i verdict
    split at hspares
    · rename_i r a hpc hread hanswer
      obtain ⟨hactive, hrequest⟩ := Directory.readRetirementRequest_eq.mp hread
      have htoken : a.token = r.token := by simpa using hspares
      intro hone
      simp only [OneOutcome, World.step, World.daemonStep, hpc, removeAcknowledgement, hactive, World.stop, if_true] at hone
      exact nomatch hone.2 a (h.answered a hanswer) r hrequest htoken
    · cases hspares
  · cases hspares

end

/-- A retirement has one outcome throughout a run if and only if the reload never removes
    the answer of the present request. -/
theorem one_outcome_iff (actions : List Action) :
    (∀ done t, done <+: actions → runFrom (fun w action => some (w.step action)) initial done = some t → t.OneOutcome) ↔
      Along (fun w action => some (w.step action)) (fun w action => w.spares action = true) initial actions := by
  refine Along.iff_throughout (fun _ h => h.oneOutcome) (fun w action t h hspares ht => ?_)
    (fun w action h hspares => ⟨_, rfl, h.not_oneOutcome (by simpa using hspares)⟩) actions initial_sound
  cases ht
  exact h.step hspares

/-- The reload looks for a request; the command publishes one; the recovery acknowledges
    it and dies; the reload removes the acknowledgement. The native file has changed when
    the reload comes to the request. -/
def answeredTwice : List Action :=
  [.daemon .again, .createRetirementRequest ⟨0, 4, "state", 7, "checkpoint", "/sessions/a.jsonl", 3, "native", ""⟩,
    .initiator, .initiator, .recovery .again, .recovery .again, .recovery .again, .recovery .again, .recovery .commit,
    .recovery .again, .daemon .again, .stop .recovery, .daemon .again, .daemon .again, .daemon .again, .daemon .again,
    .daemon (.reject "native rollback target is unavailable or changed"), .daemon .again]

theorem retirement_answered_twice : ∃ w, runFrom (fun w action => some (w.step action)) initial answeredTwice = some w ∧
    ∃ a ∈ w.written, ∃ b ∈ w.written, a.token = b.token ∧ a.error = "" ∧ b.error ≠ "" :=
  ⟨(runFrom (fun w action => some (w.step action)) initial answeredTwice).get (by decide +kernel), (Option.some_get _).symm,
    by decide +kernel⟩

end World

end CodexFold.Retirement
