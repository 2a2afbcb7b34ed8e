import CodexFold.Mount.Client
import CodexFold.Mount.Windows

/- A recovered write is applied once.

   Whatever the transport does, the file is what it was with the contents of each call at
   the offset of the call: of a call that has returned once, of another one at most once.
   A request that is executed a second time finds its bytes and leaves the file alone.
   This holds as long as no old connection executes the request of a call that has thrown
   when the client has gone on to the next call. -/
namespace CodexFold.Mount
open Foundation List Option

/-! ## What the file has of the calls -/

def Delivered (before : Bytes) : List WriteCall → Bytes → Prop
  | [], file => file = before
  | call :: rest, file => call.offset = before.length ∧
    (Delivered (before ++ call.contents) rest file ∨ call.returned = false ∧ Delivered before rest file)

instance Delivered.decidable : (before : Bytes) → (calls : List WriteCall) → (file : Bytes) → Decidable (Delivered before calls file)
  | before, [], file => inferInstanceAs (Decidable (file = before))
  | before, call :: rest, file =>
    have := Delivered.decidable (before ++ call.contents) rest file
    have := Delivered.decidable before rest file
    inferInstanceAs (Decidable (_ ∧ (_ ∨ _ ∧ _)))

def WriteCall.Present (call : WriteCall) (file : Bytes) : Prop := (file.drop call.offset).take call.contents.length = call.contents

section
variable {initial before file : Bytes} {calls : List WriteCall} {call : WriteCall}

theorem WriteCall.Present.append (h : call.Present file) (more : Bytes) : call.Present (file ++ more) := by
  have hlength : call.contents.length ≤ (file.drop call.offset).length := by
    have hle := congrArg length (show _ = _ from h)
    rw [length_take] at hle
    omega
  unfold WriteCall.Present
  by_cases hoffset : call.offset ≤ file.length
  · rw [drop_append_of_le_length hoffset, take_append_of_le_length hlength]
    exact h
  · -- then the call has no contents
    rw [length_drop] at hlength
    rw [length_eq_zero_iff.mp (show call.contents.length = 0 by omega)]
    rfl

theorem WriteCall.present_of_append (hoffset : call.offset = before.length) : call.Present (before ++ call.contents) := by
  unfold WriteCall.Present
  rw [hoffset, drop_left, take_length]

theorem WriteCall.not_present_end {call : WriteCall} (hne : call.contents ≠ []) (hoffset : call.offset = file.length) :
    ¬call.Present file := by
  intro h
  unfold WriteCall.Present at h
  rw [hoffset, drop_length, take_nil] at h
  exact hne h.symm

theorem Delivered.begins : ∀ {calls : List WriteCall} {before : Bytes}, Delivered before calls file → before <+: file
  | [], before, h => by
    rw [show file = before from h]
  | call :: rest, before, ⟨_, h⟩ => by
    rcases h with h | ⟨_, h⟩
    · exact (prefix_append before call.contents).trans (Delivered.begins h)
    · exact Delivered.begins h

theorem delivered_append_iff : ∀ {calls : List WriteCall} {before : Bytes}, Delivered before (calls ++ [call]) file ↔
    ∃ mid, Delivered before calls mid ∧ call.offset = mid.length ∧
      (file = mid ++ call.contents ∨ call.returned = false ∧ file = mid)
  | [], before => by
    constructor
    · rintro ⟨hoffset, h⟩
      exact ⟨before, rfl, hoffset, h⟩
    · rintro ⟨mid, rfl, hoffset, h⟩
      exact ⟨hoffset, h⟩
  | first :: rest, before => by
    constructor
    · rintro ⟨hoffset, h | ⟨hthrown, h⟩⟩
      · obtain ⟨mid, hmid, hlast⟩ := delivered_append_iff.mp h
        exact ⟨mid, ⟨hoffset, .inl hmid⟩, hlast⟩
      · obtain ⟨mid, hmid, hlast⟩ := delivered_append_iff.mp h
        exact ⟨mid, ⟨hoffset, .inr ⟨hthrown, hmid⟩⟩, hlast⟩
    · rintro ⟨mid, ⟨hoffset, hmid | ⟨hthrown, hmid⟩⟩, hlast⟩
      · exact ⟨hoffset, .inl (delivered_append_iff.mpr ⟨mid, hmid, hlast⟩)⟩
      · exact ⟨hoffset, .inr ⟨hthrown, delivered_append_iff.mpr ⟨mid, hmid, hlast⟩⟩⟩

theorem Delivered.grow (h : Delivered initial (calls ++ [call]) file)
    (hend : call.offset = file.length) (hne : call.contents ≠ []) : Delivered initial (calls ++ [call]) (file ++ call.contents) := by
  obtain ⟨mid, hmid, hoffset, rfl | ⟨-, rfl⟩⟩ := delivered_append_iff.mp h
  · have hpos := length_pos_iff.mpr hne
    rw [length_append] at hend
    omega
  · exact delivered_append_iff.mpr ⟨file, hmid, hoffset, .inl rfl⟩

theorem Delivered.present : ∀ {calls : List WriteCall} {before : Bytes} {r : Nat}, Delivered before calls file →
    calls[r]? = some call → call.returned → call.Present file
  | first :: rest, before, 0, h, hr, hreturned => by
    obtain rfl : first = call := some.inj hr
    obtain ⟨hoffset, h | ⟨hthrown, _⟩⟩ := h
    · obtain ⟨more, rfl⟩ := h.begins
      exact (WriteCall.present_of_append hoffset).append more
    · rw [hreturned] at hthrown
      cases hthrown
  | first :: rest, before, r + 1, h, hr, hreturned => by
    obtain ⟨_, h | ⟨_, h⟩⟩ := h
    · exact Delivered.present h hr hreturned
    · exact Delivered.present h hr hreturned

end

/-! ## What the client relies on -/

section
variable {σ : Type}

/-- The handle is as it was but for its floor, and where several handles can be open it
    still takes snapshots. -/
structure Retained (multi : Bool) (h t : ServerHandle) : Prop where
  coreHandle : t.coreHandle = h.coreHandle
  snapshotWrite : multi = true → h.snapshotWrite = true → t.snapshotWrite = true

theorem Retained.refl (multi : Bool) (h : ServerHandle) : Retained multi h h := ⟨rfl, fun _ h => h⟩

/-- What the client relies on: handles can be opened and released and show the same file,
    records at its end are appended, and records that are there are left alone. `multi`
    says whether several handles can be open. -/
structure Recoverable (c : Core σ) (jsonValid : Bytes → Bool) (multi : Bool) (room : σ → Nat → Bytes → Bool)
    (B : σ → Bytes → List Nat → Prop) : Prop where
  perm : ∀ {s file ids ids'}, B s file ids → ids.Perm ids' → B s file ids'
  exclusive : ∀ {s file ids}, multi = false → B s file ids → ids.length ≤ 1
  opens : ∀ {s file ids}, B s file ids → Concludes c.opens s (fun id t => B t file (id :: ids)) (fun _ t => B t file ids)
  release : ∀ {s file id ids}, B s file (id :: ids) → Concludes (c.release id) s (fun _ t => B t file ids) (fun _ t => B t file ids)
  read : ∀ {s file id ids offset length}, B s file (id :: ids) → Concludes (c.read id offset length) s
    (fun b t => t = s ∧ b = (file.drop offset).take length) (fun _ t => t = s)
  appends : ∀ {s file ids data} {h : ServerHandle}, B s file (h.coreHandle :: ids) → (multi = true → h.snapshotWrite = true) →
    completeJSONL jsonValid data = true → room s h.coreHandle data = true →
    Concludes (writeHandle c jsonValid data file.length) ⟨s, h⟩
      (fun _ t => B t.core (file ++ data) (h.coreHandle :: ids) ∧ Retained multi h t.handle)
      (fun _ t => B t.core file (h.coreHandle :: ids) ∧ Retained multi h t.handle)
  present : ∀ {s file ids} {h : ServerHandle} {call : WriteCall}, B s file (h.coreHandle :: ids) → h.snapshotWrite = true →
    call.contents ≠ [] → call.Present file →
    Concludes (writeHandle c jsonValid call.contents call.offset) ⟨s, h⟩ (fun _ t => t = ⟨s, h⟩) (fun _ t => t = ⟨s, h⟩)

namespace Link

variable (l : Link σ)

def handles : List ServerHandle :=
  (match l.binding with
    | .live h => [h]
    | _ => []) ++ l.old.map OldConnection.handle

def ids : List Nat := l.handles.map ServerHandle.coreHandle

def prompt (r : Nat) : Bool := (l.history[r]?).any WriteCall.returned || r + 1 == l.history.length

variable (c : Core σ) (jsonValid : Bytes → Bool) (room : σ → Nat → Bytes → Bool) (look : σ → Bytes)

def roomFor (l : Link σ) (h : ServerHandle) (call : WriteCall) : Bool :=
  call.offset != (look l.core).length || room l.core h.coreHandle call.contents

def tame (l : Link σ) : LinkEvent → Bool
  | .call contents => completeJSONL jsonValid contents
  | .write .replied _ | .write .executed _ =>
    match l.current, l.binding with
    | some call, .live h => l.roomFor room look h call
    | _, _ => true
  | .late i =>
    match l.old[i]? with
    | some ⟨h, some r⟩ => l.prompt r && (l.history[r]?).all (l.roomFor room look h)
    | _ => true
  | _ => true

/-- A request of the call through the handle: the handle compares it with the file, or it
    is at the end of the file. -/
def Fits (file : Bytes) (h : ServerHandle) (call : WriteCall) : Prop := h.snapshotWrite = true ∨ call.offset = file.length

/-- The file has of the calls what it should, and the requests left with old connections
    fit it. -/
structure Steady (multi : Bool) (B : σ → Bytes → List Nat → Prop) (initial : Bytes) (l : Link σ) (file : Bytes) : Prop where
  backend : B l.core file l.ids
  written : Delivered initial l.history file
  complete : ∀ call ∈ l.history, completeJSONL jsonValid call.contents = true
  running : ∀ call, l.current = some call → call.returned = false
  snapshots : multi = true → ∀ h ∈ l.handles, h.snapshotWrite = true
  lates : ∀ o ∈ l.old, ∀ r, o.late = some r → r < l.history.length ∧
    (l.prompt r = true → ∀ call, l.history[r]? = some call → Fits file o.handle call)

/-- The request that the client is about to make fits the file, too. -/
structure Sound (multi : Bool) (B : σ → Bytes → List Nat → Prop) (initial : Bytes) (l : Link σ) (file : Bytes) : Prop
    extends Steady jsonValid multi B initial l file where
  writing : ∀ h call, l.binding = .live h → l.current = some call → (l.outcomeIsUncertain && !l.verified) = false →
    Fits file h call

end Link

/-! ## The steps of the client -/

namespace Link
variable {c : Core σ} {jsonValid : Bytes → Bool} {multi : Bool} {room : σ → Nat → Bytes → Bool} {look : σ → Bytes}
variable {B : σ → Bytes → List Nat → Prop} {initial file : Bytes} {l : Link σ}
variable {call : WriteCall} {h : ServerHandle} {core : σ} {l' : Link σ}

theorem history_of_some (h : l.current = some call) : l.history = l.calls ++ [call] := by
  unfold history
  rw [h]
  rfl

theorem history_of_none (h : l.current = none) : l.history = l.calls := by
  unfold history
  rw [h]
  exact append_nil _

theorem ids_of_live (hl : l.binding = .live h) :
    l.ids = h.coreHandle :: (l.old.map OldConnection.handle).map ServerHandle.coreHandle := by
  unfold ids handles
  rw [hl]
  rfl

theorem mem_handles_of_live (hl : l.binding = .live h) : h ∈ l.handles := by
  unfold handles
  rw [hl]
  exact .head _

theorem Steady.uncertain (h : l.Steady jsonValid multi B initial file) :
    Steady jsonValid multi B initial { l with outcomeIsUncertain := true } file :=
  { h with }

theorem Steady.last (h : l.Steady jsonValid multi B initial file) (hcall : l.current = some call) :
    ∃ mid, Delivered initial l.calls mid ∧ call.offset = mid.length ∧ (file = mid ++ call.contents ∨ file = mid) := by
  have hwritten := h.written
  rw [history_of_some hcall] at hwritten
  obtain ⟨mid, hmid, hoffset, hlast⟩ := delivered_append_iff.mp hwritten
  exact ⟨mid, hmid, hoffset, hlast.imp_right fun hthrown => hthrown.2⟩

theorem Steady.contents_ne (h : l.Steady jsonValid multi B initial file) (hcall : l.current = some call) :
    call.contents ≠ [] := by
  refine complete_ne_nil (h.complete call ?_)
  rw [history_of_some hcall]
  exact mem_append_right _ (.head _)

theorem Steady.finish (h : l.Steady jsonValid multi B initial file) (returned : Bool)
    (hreturned : returned → ∀ call, l.current = some call → call.Present file) :
    (l.finish returned).Sound jsonValid multi B initial file := by
  cases hcurrent : l.current with
  | none =>
    have hfinish : l.finish returned = l := by
      unfold Link.finish
      rw [hcurrent, map_none, toList_none, append_nil, ← hcurrent]
    rw [hfinish]
    refine ⟨h, fun _ call _ hcall => ?_⟩
    rw [hcurrent] at hcall
    cases hcall
  | some call =>
    have hhistory : (l.finish returned).history = l.calls ++ [{ call with returned := returned }] := by
      unfold Link.finish Link.history
      rw [hcurrent]
      exact append_nil _
    have hlength : (l.finish returned).history.length = l.history.length := by
      rw [hhistory, history_of_some hcurrent, length_append, length_append]
      rfl
    -- the calls before are the same, and the last one has its contents and its offset
    have hget : ∀ r call', (l.finish returned).history[r]? = some call' →
        ∃ call'', l.history[r]? = some call'' ∧ call''.contents = call'.contents ∧ call''.offset = call'.offset ∧
          (r + 1 = l.history.length ∨ call''.returned = call'.returned) := by
      intro r call' hr
      rw [hhistory] at hr
      rw [history_of_some hcurrent]
      rcases lt_or_ge r l.calls.length with hlt | hge
      · rw [getElem?_append_left hlt] at hr ⊢
        exact ⟨call', hr, rfl, rfl, .inr rfl⟩
      · rw [getElem?_append_right hge] at hr ⊢
        cases hsub : r - l.calls.length with
        | zero =>
          rw [hsub] at hr
          cases hr
          refine ⟨call, rfl, rfl, rfl, .inl ?_⟩
          rw [length_append, length_singleton]
          omega
        | succ n =>
          rw [hsub] at hr
          cases hr
    refine ⟨⟨h.backend, ?_, ?_, nofun, h.snapshots, ?_⟩, nofun⟩
    · obtain ⟨mid, hmid, hoffset, hlast⟩ := h.last hcurrent
      rw [hhistory]
      refine delivered_append_iff.mpr ⟨mid, hmid, hoffset, ?_⟩
      cases returned with
      | false => exact hlast.imp_right fun hmissing => ⟨rfl, hmissing⟩
      | true =>
        refine .inl (hlast.resolve_right ?_)
        rintro rfl
        exact WriteCall.not_present_end (h.contents_ne hcurrent) hoffset (hreturned rfl call hcurrent)
    · intro call' hcall'
      obtain ⟨r, hr, rfl⟩ := getElem_of_mem hcall'
      obtain ⟨call'', hget'', hcontents, -, -⟩ := hget r _ (getElem?_eq_getElem hr)
      rw [← hcontents]
      exact h.complete call'' (mem_of_getElem? hget'')
    · intro o ho r hr
      obtain ⟨hlt, hfits⟩ := h.lates o ho r hr
      refine ⟨hlength ▸ hlt, fun hprompt call' hcall' => ?_⟩
      obtain ⟨call'', hget'', -, hoffset, hsame⟩ := hget r call' hcall'
      have hold : l.prompt r := by
        unfold Link.prompt at hprompt ⊢
        rw [hget'', any_some]
        rw [hcall', any_some, hlength] at hprompt
        rcases hsame with hend | hsame
        · rw [hend]
          simp
        · rw [hsame]
          exact hprompt
      have := hfits hold call'' hget''
      unfold Fits at this ⊢
      rwa [hoffset] at this

theorem Steady.abandon (hl : l.Steady jsonValid multi B initial file) (late : Option Nat)
    (hbinding : l.binding = .live h) (hlate : ∀ r, late = some r → ∃ call, l.current = some call ∧ r = l.calls.length ∧
      Fits file h call) : (l.abandon h late).Steady jsonValid multi B initial file := by
  have hhandles : (l.abandon h late).handles = l.handles := by
    unfold Link.abandon handles
    rw [hbinding]
    rfl
  refine ⟨?_, hl.written, hl.complete, hl.running, ?_, ?_⟩
  · rw [show (l.abandon h late).ids = l.ids from congrArg (List.map ServerHandle.coreHandle) hhandles]
    exact hl.backend
  · rw [hhandles]
    exact hl.snapshots
  · intro o ho r hr
    rcases mem_cons.mp ho with rfl | ho
    · obtain ⟨call, hcurrent, rfl, hfits⟩ := hlate r hr
      have hhistory : (l.abandon h late).history = l.calls ++ [call] := history_of_some hcurrent
      rw [hhistory]
      refine ⟨by simp, fun _ call' hcall' => ?_⟩
      rw [getElem?_append_right (le_refl _), Nat.sub_self] at hcall'
      cases hcall'
      exact hfits
    · exact hl.lates o ho r hr

theorem Steady.reset (h : l.Steady jsonValid multi B initial file) (hbinding : ∀ x, l.binding ≠ .live x) {binding : Binding}
    (hdown : ∀ x, binding ≠ .live x) (attempts : Nat) (outcomeIsUncertain verified : Bool) :
    Sound jsonValid multi B initial { l with
      binding := binding
      attempts := attempts
      outcomeIsUncertain := outcomeIsUncertain
      verified := verified } file := by
  have hhandles : ∀ x : Link σ, (∀ h, x.binding ≠ .live h) → x.handles = x.old.map OldConnection.handle := by
    intro x hx
    unfold handles
    cases hb : x.binding with
    | none => rfl
    | live h => exact absurd hb (hx h)
    | dead => rfl
  have hsame : handles { l with
      binding := binding
      attempts := attempts
      outcomeIsUncertain := outcomeIsUncertain
      verified := verified } = l.handles := (hhandles _ hdown).trans (hhandles l hbinding).symm
  refine ⟨⟨?_, h.written, h.complete, h.running, ?_, h.lates⟩, fun x _ hlive => absurd hlive (hdown x)⟩
  · unfold ids
    rw [hsame]
    exact h.backend
  · rw [hsame]
    exact h.snapshots

theorem Steady.failover (h : l.Steady jsonValid multi B initial file) (hbinding : ∀ x, l.binding ≠ .live x) (recovery : Recovery) :
    (l.failover recovery).Sound jsonValid multi B initial file := by
  have hnone : ∀ x, Binding.none ≠ .live x := nofun
  have hdead : ∀ x, Binding.dead ≠ .live x := nofun
  cases recovery with
  | recovered =>
    unfold Link.failover
    dsimp only
    by_cases hmore : l.attempts + 1 < 8
    · rw [if_pos hmore]
      exact h.reset hbinding hnone _ _ _
    · rw [if_neg hmore]
      exact (h.reset hbinding hnone _ _ _).finish false nofun
  | expired => exact (h.reset hbinding hnone _ _ _).finish false nofun
  | failed => exact (h.reset hbinding hdead _ _ _).finish false nofun

theorem Steady.lose (hl : l.Steady jsonValid multi B initial file) (late : Option Nat)
    (hbinding : l.binding = .live h) (hlate : ∀ r, late = some r → ∃ call, l.current = some call ∧ r = l.calls.length ∧
      Fits file h call) (recovery : Recovery) :
    ((l.abandon h late).failover recovery).Sound jsonValid multi B initial file :=
  (hl.abandon late hbinding hlate).failover nofun recovery

theorem Steady.moved (h : l.Steady jsonValid multi B initial file) (hcore : B core file l.ids) :
    Steady jsonValid multi B initial { l with core := core } file :=
  { h with backend := hcore }

theorem Sound.moved (h : l.Sound jsonValid multi B initial file) (hcore : B core file l.ids) :
    Sound jsonValid multi B initial { l with core := core } file :=
  ⟨h.toSteady.moved hcore, h.writing⟩

theorem Sound.callStep {contents : Bytes} (h : l.Sound jsonValid multi B initial file)
    (hlook : look l.core = file) (hcomplete : completeJSONL jsonValid contents)
    (hstep : l.callStep look contents = some l') : l'.Sound jsonValid multi B initial file := by
  unfold Link.callStep at hstep
  cases hcurrent : l.current with
  | some call =>
    rw [hcurrent] at hstep
    cases hstep
  | none =>
    rw [hcurrent] at hstep
    dsimp only at hstep
    rw [if_neg (by simpa using complete_ne_nil hcomplete), hlook] at hstep
    cases hstep
    have hold : l.history = l.calls := history_of_none hcurrent
    have hwritten := h.written
    rw [hold] at hwritten
    refine ⟨⟨h.backend, ?_, ?_, ?_, h.snapshots, ?_⟩, ?_⟩
    · exact delivered_append_iff.mpr ⟨file, hwritten, rfl, .inr ⟨rfl, rfl⟩⟩
    · intro call hcall
      rcases mem_append.mp hcall with hcall | hcall
      · exact h.complete call (hold ▸ hcall)
      · rw [mem_singleton.mp hcall]
        exact hcomplete
    · intro call hcall
      cases hcall
      rfl
    · -- only a call that has returned is still prompt
      intro o ho r hr
      obtain ⟨hlt, hfits⟩ := h.lates o ho r hr
      rw [hold] at hlt
      have hget : ∀ call : WriteCall, (l.calls ++ [call])[r]? = l.history[r]? := fun call => by
        rw [getElem?_append_left hlt, hold]
      refine ⟨?_, fun hprompt call' hcall' => ?_⟩
      · show r < (l.calls ++ [_]).length
        rw [length_append]
        omega
      · have hprompt : ((l.calls ++ [_])[r]?.any WriteCall.returned || r + 1 == (l.calls ++ [_]).length) := hprompt
        have hcall' : (l.calls ++ [_])[r]? = some call' := hcall'
        rw [hget, length_append, length_singleton, beq_eq_false_iff_ne.mpr (by omega), Bool.or_false] at hprompt
        rw [hget] at hcall'
        refine hfits ?_ call' hcall'
        unfold Link.prompt
        rw [hprompt, Bool.true_or]
    · intro x call _ hcall _
      cases hcall
      exact .inr rfl

section

variable (hc : Recoverable c jsonValid multi room B)
include hc

theorem Sound.opensStep (h : l.Sound jsonValid multi B initial file) (hstep : l.opensStep c = some l') :
    l'.Sound jsonValid multi B initial file := by
  unfold Link.opensStep at hstep
  split at hstep
  · next call hcurrent hbinding =>
    rcases hc.opens h.backend with ⟨id, t, hrun, ht⟩ | ⟨e, t, hrun, ht⟩
    · rw [hrun.eq] at hstep
      cases hstep
      have hids : l.ids = (l.old.map OldConnection.handle).map ServerHandle.coreHandle := by
        unfold ids handles
        rw [hbinding]
        rfl
      rw [hids] at ht
      refine ⟨⟨ht, h.written, h.complete, h.running, fun hmulti x hx => ?_, h.lates⟩, fun x call hx _ _ => ?_⟩
      · rcases mem_cons.mp hx with rfl | hx
        · rfl
        · refine h.snapshots hmulti x ?_
          unfold handles
          rw [hbinding]
          exact hx
      · cases hx
        exact .inl rfl
    · rw [hrun] at hstep
      cases hstep
      exact (h.toSteady.moved ht).finish false nofun
  · cases hstep

theorem Sound.orphanStep (h : l.Sound jsonValid multi B initial file) (hstep : l.orphanStep c = some l') :
    l'.Sound jsonValid multi B initial file := by
  unfold Link.orphanStep at hstep
  rcases hc.opens h.backend with ⟨id, t, hrun, ht⟩ | ⟨e, t, hrun, ht⟩
  · rw [hrun.eq] at hstep
    cases hstep
    refine ⟨⟨hc.perm ht ?_, h.written, h.complete, h.running, fun hmulti x hx => ?_, fun o ho r hr => ?_⟩, h.writing⟩
    · unfold ids handles
      rw [map_append, map_append]
      exact perm_middle.symm
    · rcases mem_append.mp hx with hx | hx
      · exact h.snapshots hmulti x (mem_append_left _ hx)
      · rcases mem_cons.mp hx with rfl | hx
        · rfl
        · exact h.snapshots hmulti x (mem_append_right _ hx)
    · rcases mem_cons.mp ho with rfl | ho
      · cases hr
      · exact h.lates o ho r hr
  · rw [hrun] at hstep
    cases hstep
    exact h.moved ht

omit hc in
theorem wireWriteRecoveryDecision_eq_alreadyCommitted {existing requested : Bytes} {replay : Bool} :
    wireWriteRecoveryDecision existing requested replay = .alreadyCommitted ↔ existing = requested := by
  unfold wireWriteRecoveryDecision
  by_cases h : existing = requested
  · rw [if_pos h]
    exact ⟨fun _ => h, fun _ => rfl⟩
  · rw [if_neg h]
    refine ⟨fun hdecision => ?_, fun heq => absurd heq h⟩
    split at hdecision
    · cases hdecision
    · cases hdecision

theorem Sound.verifyStep {reply : Bool} {recovery : Recovery} (h : l.Sound jsonValid multi B initial file)
    (hstep : l.verifyStep c reply recovery = some l') : l'.Sound jsonValid multi B initial file := by
  unfold Link.verifyStep at hstep
  split at hstep
  swap
  · cases hstep
  next call x hcurrent hbinding =>
  split at hstep
  · cases hstep
  split at hstep
  · cases hstep
    exact h.toSteady.lose none hbinding nofun recovery
  have hbackend := h.backend
  rw [ids_of_live hbinding] at hbackend
  rcases hc.read hbackend with ⟨existing, t, hrun, rfl, rfl⟩ | ⟨e, t, hrun, rfl⟩
  · rw [hrun.eq] at hstep
    dsimp only at hstep
    cases hdecision : wireWriteRecoveryDecision ((file.drop call.offset).take call.contents.length) call.contents true with
    | alreadyCommitted =>
      rw [hdecision] at hstep
      cases hstep
      refine h.toSteady.finish true fun _ call' hcall' => ?_
      cases hcurrent.symm.trans hcall'
      exact wireWriteRecoveryDecision_eq_alreadyCommitted.mp hdecision
    | replaySnapshot =>
      rw [hdecision] at hstep
      cases hstep
      refine ⟨{ h.toSteady with }, fun _ call' _ hcall' _ => .inr ?_⟩
      cases hcurrent.symm.trans hcall'
      -- the contents are not there, so that the file ends where they should be
      obtain ⟨mid, -, hoffset, rfl | rfl⟩ := h.last hcurrent
      · rw [wireWriteRecoveryDecision_eq_alreadyCommitted.mpr (WriteCall.present_of_append hoffset)] at hdecision
        cases hdecision
      · exact hoffset
    | conflict =>
      rw [hdecision] at hstep
      cases hstep
      exact h.toSteady.finish false nofun
  · rw [hrun] at hstep
    dsimp only at hstep
    split at hstep
    · cases hstep
      exact h.toSteady.lose none hbinding nofun recovery
    · cases hstep
      exact h.toSteady.finish false nofun

/-! ## The requests -/

theorem execute {ids : List Nat} (hcore : B core file (h.coreHandle :: ids))
    (hsnapshot : multi → h.snapshotWrite) (hcomplete : completeJSONL jsonValid call.contents)
    (hfits : Fits file h call) (hhere : call.Present file ∨ call.offset = file.length)
    (hroom : call.offset = file.length → room core h.coreHandle call.contents) :
    Concludes (writeHandle c jsonValid call.contents call.offset) ⟨core, h⟩
      (fun _ t => Retained multi h t.handle ∧ ∃ file', B t.core file' (h.coreHandle :: ids) ∧ call.Present file' ∧
        (file' = file ∨ file' = file ++ call.contents ∧ call.offset = file.length))
      (fun _ t => Retained multi h t.handle ∧ B t.core file (h.coreHandle :: ids)) := by
  by_cases hend : call.offset = file.length
  · rw [hend]
    refine (hc.appends hcore hsnapshot hcomplete (hroom hend)).mono (fun _ t ht => ?_) fun _ t ht => ⟨ht.2, ht.1⟩
    exact ⟨ht.2, file ++ call.contents, ht.1, WriteCall.present_of_append hend, .inr ⟨rfl, rfl⟩⟩
  · have hpresent := hhere.resolve_right hend
    refine (hc.present hcore (hfits.resolve_right hend) (complete_ne_nil hcomplete) hpresent).mono (fun _ t ht => ?_)
      fun _ t ht => ?_
    · rw [ht]
      exact ⟨Retained.refl multi h, file, hcore, hpresent, .inl rfl⟩
    · rw [ht]
      exact ⟨Retained.refl multi h, hcore⟩

omit hc in
theorem room_of_end (hlook : look l.core = file) (hroom : l.roomFor room look h call) (hend : call.offset = file.length) :
    room l.core h.coreHandle call.contents := by
  unfold roomFor at hroom
  rw [hlook, bne, beq_iff_eq.mpr hend] at hroom
  exact hroom

section

variable (hl : l.Sound jsonValid multi B initial file)
include hl

theorem Sound.executed {t : ServerHandle} {file' : Bytes} (hbinding : l.binding = .live h)
    (hcurrent : l.current = some call) (ht : Retained multi h t)
    (hcore : B core file' (h.coreHandle :: (l.old.map OldConnection.handle).map ServerHandle.coreHandle))
    (hgrown : file' = file ∨ file' = file ++ call.contents ∧ call.offset = file.length) :
    Steady jsonValid multi B initial { l with core := core, binding := .live t } file' := by
  have hids : ids { l with core := core, binding := .live t } =
      h.coreHandle :: (l.old.map OldConnection.handle).map ServerHandle.coreHandle := by
    rw [ids_of_live rfl, ht.coreHandle]
  have hold : ∀ x ∈ l.old.map OldConnection.handle, x ∈ l.handles := fun x hx => mem_append_right _ hx
  refine ⟨hids ▸ hcore, ?_, hl.complete, hl.running, fun hmulti x hx => ?_, fun o ho r hr => ?_⟩
  · rcases hgrown with rfl | ⟨rfl, hend⟩
    · exact hl.written
    · have hwritten := hl.written
      rw [history_of_some hcurrent] at hwritten
      show Delivered initial l.history _
      rw [history_of_some hcurrent]
      exact hwritten.grow hend (hl.contents_ne hcurrent)
  · rcases mem_cons.mp hx with rfl | hx
    · exact ht.snapshotWrite hmulti (hl.snapshots hmulti h (mem_handles_of_live hbinding))
    · exact hl.snapshots hmulti x (hold x hx)
  · obtain ⟨hlt, -⟩ := hl.lates o ho r hr
    refine ⟨hlt, fun _ _ _ => ?_⟩
    cases hmulti : multi with
    | true => exact .inl (hl.snapshots hmulti o.handle (hold _ (List.mem_map_of_mem ho)))
    | false =>
      -- the binding has the only handle
      have hone := hc.exclusive hmulti hcore
      rw [length_cons, length_map, length_map] at hone
      rw [length_eq_zero_iff.mp (show l.old.length = 0 by omega)] at ho
      cases ho

theorem Sound.execute (hlook : look l.core = file) (hbinding : l.binding = .live h) (hcurrent : l.current = some call)
    (hready : (l.outcomeIsUncertain && !l.verified) = false) (hroom : l.roomFor room look h call) :
    Concludes (writeHandle c jsonValid call.contents call.offset) ⟨l.core, h⟩
      (fun _ t => ∃ file', Steady jsonValid multi B initial { l with core := t.core, binding := .live t.handle } file' ∧
        call.Present file')
      (fun _ t => Steady jsonValid multi B initial { l with core := t.core, binding := .live t.handle } file) := by
  have hbackend := hl.backend
  rw [ids_of_live hbinding] at hbackend
  have hcomplete : completeJSONL jsonValid call.contents := by
    refine hl.complete call ?_
    rw [history_of_some hcurrent]
    exact mem_append_right _ (.head _)
  have hhere : call.Present file ∨ call.offset = file.length := by
    obtain ⟨mid, -, hoffset, rfl | rfl⟩ := hl.last hcurrent
    · exact .inl (WriteCall.present_of_append hoffset)
    · exact .inr hoffset
  refine (Link.execute hc hbackend (fun hmulti => hl.snapshots hmulti h (mem_handles_of_live hbinding)) hcomplete
    (hl.writing h call hbinding hcurrent hready) hhere (room_of_end hlook hroom)).mono ?_ ?_
  · rintro _ t ⟨hretained, file', hcore, hpresent, hgrown⟩
    exact ⟨file', hl.executed hc hbinding hcurrent hretained hcore hgrown, hpresent⟩
  · rintro _ t ⟨hretained, hcore⟩
    exact hl.executed hc hbinding hcurrent hretained hcore (.inl rfl)

end

theorem Sound.writeStep {fate : Fate} {recovery : Recovery} (h : l.Sound jsonValid multi B initial file)
    (hlook : look l.core = file) (htame : l.tame jsonValid room look (.write fate recovery))
    (hstep : l.writeStep c jsonValid fate recovery = some l') : ∃ file', l'.Sound jsonValid multi B initial file' := by
  unfold Link.writeStep at hstep
  split at hstep
  · next call x hcurrent hbinding =>
    by_cases hready : (l.outcomeIsUncertain && !l.verified) = true
    · rw [if_pos hready] at hstep
      cases hstep
    rw [if_neg hready] at hstep
    have hready : (l.outcomeIsUncertain && !l.verified) = false := by simpa using hready
    have hlost : ∀ {t : Serving σ} {file' : Bytes},
        Steady jsonValid multi B initial { l with core := t.core, binding := .live t.handle } file' →
          Sound jsonValid multi B initial
            ((abandon { l with core := t.core, outcomeIsUncertain := true } t.handle none).failover recovery) file' := by
      intro t file' ht
      exact ht.uncertain.lose none rfl nofun recovery
    have hexecute := h.execute hc hlook hbinding hcurrent hready
    cases fate with
    | replied =>
      simp only [Link.tame, hcurrent, hbinding] at htame
      rcases hexecute htame with ⟨n, t, hrun, file', ht, hpresent⟩ | ⟨e, t, hrun, ht⟩
      · rw [hrun.eq] at hstep
        cases hstep
        refine ⟨file', ht.finish true fun _ call' hcall' => ?_⟩
        cases hcurrent.symm.trans hcall'
        exact hpresent
      · rw [hrun] at hstep
        dsimp only [Link.replied] at hstep
        split at hstep
        · cases hstep
          exact ⟨file, hlost ht⟩
        · cases hstep
          exact ⟨file, ht.finish false nofun⟩
    | lost =>
      cases hstep
      exact ⟨file, h.uncertain.lose none hbinding nofun recovery⟩
    | executed =>
      simp only [Link.tame, hcurrent, hbinding] at htame
      rcases hexecute htame with ⟨n, t, hrun, file', ht, -⟩ | ⟨e, t, hrun, ht⟩
      · rw [hrun.eq] at hstep
        cases hstep
        exact ⟨file', hlost ht⟩
      · rw [hrun] at hstep
        cases hstep
        exact ⟨file, hlost ht⟩
    | late =>
      cases hstep
      refine ⟨file, h.uncertain.lose (some l.calls.length) hbinding (fun r hr => ?_) recovery⟩
      cases hr
      exact ⟨call, hcurrent, rfl, h.writing x call hbinding hcurrent hready⟩
  · next hbinding =>
    cases hstep
    refine ⟨file, h.uncertain.failover (fun x hx => ?_) recovery⟩
    rw [hbinding] at hx
    cases hx
  · cases hstep

/-! ## The old connections -/

omit hc in
theorem length_ids : l.ids.length = (match l.binding with | .live _ => 1 | _ => 0) + l.old.length := by
  unfold ids handles
  rw [length_map, length_append, length_map]
  cases l.binding <;> rfl

variable {i : Nat}

omit hc in
theorem ids_perm_erase {o : OldConnection} (core : σ) (ho : l.old[i]? = some o) :
    l.ids.Perm (o.handle.coreHandle :: ids { l with core := core, old := l.old.eraseIdx i }) := by
  obtain ⟨hi, rfl⟩ := List.getElem?_eq_some_iff.mp ho
  have herase : l.old.Perm (l.old[i] :: l.old.eraseIdx i) := (getElem_cons_eraseIdx_perm hi).symm
  have hmap := (herase.map OldConnection.handle).map ServerHandle.coreHandle
  unfold ids handles
  rw [map_append, map_append]
  exact (hmap.append_left _).trans perm_middle

omit hc in
theorem ids_set {o o' : OldConnection} (ho : l.old[i]? = some o) (hsame : o'.handle.coreHandle = o.handle.coreHandle) :
    ids { l with core := core, old := l.old.set i o' } = l.ids := by
  obtain ⟨hi, rfl⟩ := List.getElem?_eq_some_iff.mp ho
  have hset : ((l.old.set i o').map OldConnection.handle).map ServerHandle.coreHandle =
      (l.old.map OldConnection.handle).map ServerHandle.coreHandle := by
    rw [map_set, map_set, hsame, ← map_set, ← map_set, set_getElem_self]
  unfold ids handles
  rw [map_append, map_append, hset]

omit hc in
theorem Steady.prompt_cases {r : Nat} (h : l.Steady jsonValid multi B initial file) (hprompt : l.prompt r)
    (hcall : l.history[r]? = some call) :
    call.Present file ∨ call.offset = file.length ∧ ∃ calls, l.history = calls ++ [call] := by
  unfold Link.prompt at hprompt
  rw [hcall, any_some, Bool.or_eq_true] at hprompt
  by_cases hreturned : call.returned = true
  · exact .inl (h.written.present hcall hreturned)
  · have hlast : r + 1 = l.history.length := by simpa using hprompt.resolve_left hreturned
    obtain ⟨hlt, hget⟩ := List.getElem?_eq_some_iff.mp hcall
    have hhistory : l.history = l.history.dropLast ++ [call] := by
      have hne : l.history ≠ [] := ne_nil_of_length_pos (by omega)
      rw [← dropLast_concat_getLast hne, dropLast_concat, getLast_eq_getElem]
      congr 2
      rw [← hget]
      congr 1
      omega
    have hwritten := h.written
    rw [hhistory] at hwritten
    obtain ⟨mid, -, hoffset, rfl | ⟨-, rfl⟩⟩ := delivered_append_iff.mp hwritten
    · exact .inl (WriteCall.present_of_append hoffset)
    · exact .inr ⟨hoffset, _, hhistory⟩

theorem Sound.executedLate {x : ServerHandle} {r : Nat} {t : Serving σ} {file' : Bytes} (h : l.Sound jsonValid multi B initial file)
    (hold : l.old[i]? = some ⟨x, some r⟩) (hprompt : l.prompt r) (hcall : l.history[r]? = some call)
    (hretained : Retained multi x t.handle) (hcore : B t.core file' (x.coreHandle :: ids { l with old := l.old.eraseIdx i }))
    (hgrown : file' = file ∨ file' = file ++ call.contents ∧ call.offset = file.length) :
    Sound jsonValid multi B initial { l with core := t.core, old := l.old.set i ⟨t.handle, none⟩ } file' := by
  have hhandle : x ∈ l.handles := mem_append_right _ (List.mem_map_of_mem (mem_of_getElem? hold))
  have hother : ∀ o ∈ l.old.set i ⟨t.handle, none⟩, o.late = none ∨ o ∈ l.old := by
    intro o ho
    rcases mem_or_eq_of_mem_set ho with ho | rfl
    · exact .inr ho
    · exact .inl rfl
  have hone : multi = false → l.ids.length ≤ 1 := fun hmulti => hc.exclusive hmulti h.backend
  have hi : i < l.old.length := (List.getElem?_eq_some_iff.mp hold).1
  refine ⟨⟨?_, ?_, h.complete, h.running, fun hmulti y hy => ?_, fun o ho r' hr' => ?_⟩, fun y call' hy hcall' hready => ?_⟩
  · rw [ids_set hold hretained.coreHandle]
    exact hc.perm hcore (ids_perm_erase l.core hold).symm
  · rcases hgrown with rfl | ⟨rfl, hend⟩
    · exact h.written
    · have hne := complete_ne_nil (h.complete call (mem_of_getElem? hcall))
      obtain ⟨-, calls, hhistory⟩ := (h.prompt_cases hprompt hcall).resolve_left (WriteCall.not_present_end hne hend)
      show Delivered initial l.history _
      have hwritten := h.written
      rw [hhistory] at hwritten ⊢
      exact hwritten.grow hend hne
  · rcases mem_append.mp hy with hy | hy
    · exact h.snapshots hmulti y (mem_append_left _ hy)
    · obtain ⟨o, ho, rfl⟩ := List.mem_map.mp hy
      rcases mem_or_eq_of_mem_set ho with ho | rfl
      · exact h.snapshots hmulti _ (mem_append_right _ (List.mem_map_of_mem ho))
      · exact hretained.snapshotWrite hmulti (h.snapshots hmulti x hhandle)
  · rcases hother o ho with hnone | hmem'
    · rw [hnone] at hr'
      cases hr'
    obtain ⟨hlt, hfits⟩ := h.lates o hmem' r' hr'
    refine ⟨hlt, fun hp call' hcall' => ?_⟩
    rcases hgrown with rfl | ⟨rfl, -⟩
    · exact hfits hp call' hcall'
    cases hmulti : multi with
    | true => exact .inl (h.snapshots hmulti _ (mem_append_right _ (List.mem_map_of_mem hmem')))
    | false =>
      -- the old connection has the only handle
      have hlength := hone hmulti
      rw [length_ids] at hlength
      obtain ⟨a, ha⟩ := length_eq_one_iff.mp (show l.old.length = 1 by omega)
      obtain rfl : i = 0 := by
        rw [ha, length_singleton] at hi
        omega
      rw [ha, set_cons_zero, mem_singleton] at ho
      rw [ho] at hr'
      cases hr'
  · rcases hgrown with rfl | ⟨rfl, -⟩
    · exact h.writing y call' hy hcall' hready
    cases hmulti : multi with
    | true =>
      refine .inl (h.snapshots hmulti y (mem_append_left _ ?_))
      rw [show l.binding = .live y from hy]
      exact .head _
    | false =>
      have hlength := hone hmulti
      rw [length_ids, show l.binding = .live y from hy] at hlength
      dsimp only at hlength
      omega

theorem Sound.lateStep (h : l.Sound jsonValid multi B initial file) (hlook : look l.core = file)
    (htame : l.tame jsonValid room look (.late i)) (hstep : l.lateStep c jsonValid i = some l') :
    ∃ file', l'.Sound jsonValid multi B initial file' := by
  unfold Link.lateStep at hstep
  split at hstep
  swap
  · cases hstep
  next x r hold =>
  split at hstep
  swap
  · cases hstep
  next call hcall =>
  have hmem : (⟨x, some r⟩ : OldConnection) ∈ l.old := mem_of_getElem? hold
  obtain ⟨hprompt, hroom⟩ : l.prompt r = true ∧ l.roomFor room look x call = true := by
    simpa only [Link.tame, hold, hcall, all_some, Bool.and_eq_true] using htame
  rcases Link.execute hc (hc.perm h.backend (ids_perm_erase l.core hold))
    (fun hmulti => h.snapshots hmulti x (mem_append_right _ (List.mem_map_of_mem hmem)))
    (h.complete call (mem_of_getElem? hcall)) ((h.lates _ hmem r rfl).2 hprompt call hcall)
    ((h.prompt_cases hprompt hcall).imp_right And.left) (room_of_end hlook hroom)
    with ⟨n, t, hrun, hretained, file', hcore, -, hgrown⟩ | ⟨e, t, hrun, hretained, hcore⟩
  · rw [hrun.eq] at hstep
    cases hstep
    exact ⟨file', h.executedLate hc hold hprompt hcall hretained hcore hgrown⟩
  · rw [hrun] at hstep
    cases hstep
    exact ⟨file, h.executedLate hc hold hprompt hcall hretained hcore (.inl rfl)⟩

theorem Sound.releaseStep (h : l.Sound jsonValid multi B initial file) (hstep : l.releaseStep c i = some l') :
    l'.Sound jsonValid multi B initial file := by
  unfold Link.releaseStep at hstep
  split at hstep
  · next o ho =>
    have hsound : ∀ t, B t file (ids { l with core := l.core, old := l.old.eraseIdx i }) →
        Sound jsonValid multi B initial { l with core := t, old := l.old.eraseIdx i } file := by
      intro t ht
      have hsub : ∀ o ∈ l.old.eraseIdx i, o ∈ l.old := fun o ho => mem_of_mem_eraseIdx ho
      refine ⟨⟨ht, h.written, h.complete, h.running, fun hmulti y hy => ?_, fun o ho => h.lates o (hsub o ho)⟩, h.writing⟩
      rcases mem_append.mp hy with hy | hy
      · exact h.snapshots hmulti y (mem_append_left _ hy)
      · obtain ⟨o, ho, rfl⟩ := List.mem_map.mp hy
        exact h.snapshots hmulti _ (mem_append_right _ (List.mem_map_of_mem (hsub o ho)))
    rcases hc.release (hc.perm h.backend (ids_perm_erase l.core ho)) with ⟨_, t, hrun, ht⟩ | ⟨e, t, hrun, ht⟩
    · rw [hrun.eq] at hstep
      cases hstep
      exact hsound t ht
    · rw [hrun] at hstep
      cases hstep
      exact hsound t ht
  · cases hstep

/-! ## Runs -/

/-- The step lemma. -/
theorem Sound.step (hlook : ∀ {s file ids}, B s file ids → look s = file) {e : LinkEvent}
    (h : l.Sound jsonValid multi B initial file) (htame : l.tame jsonValid room look e)
    (hstep : l.step c jsonValid look e = some l') : ∃ file', l'.Sound jsonValid multi B initial file' := by
  have hshown := hlook h.backend
  cases e with
  | call contents => exact ⟨file, h.callStep hshown htame hstep⟩
  | rebind =>
    simp only [Link.step] at hstep
    split at hstep
    · next hdead =>
      cases hstep
      have hnone : ∀ x, Binding.none ≠ .live x := nofun
      refine ⟨file, h.toSteady.reset (fun x hx => ?_) hnone _ _ _⟩
      rw [hdead] at hx
      cases hx
    · cases hstep
  | opens => exact ⟨file, h.opensStep hc hstep⟩
  | unreachable =>
    simp only [Link.step] at hstep
    split at hstep
    · cases hstep
      exact ⟨file, h.toSteady.finish false nofun⟩
    · cases hstep
  | orphan => exact ⟨file, h.orphanStep hc hstep⟩
  | verify reply recovery => exact ⟨file, h.verifyStep hc hstep⟩
  | write fate recovery => exact h.writeStep hc hshown htame hstep
  | late i => exact h.lateStep hc hshown htame hstep
  | release i => exact ⟨file, h.releaseStep hc hstep⟩

end

def started (core : σ) : Link σ := ⟨core, .none, [], [], none, 0, false, false⟩

/-- The run lemma. -/
theorem delivered_run (hc : Recoverable c jsonValid multi room B) (hlook : ∀ {s file ids}, B s file ids → look s = file)
    (hcore : B core initial []) {events : List LinkEvent}
    (htame : Along (Link.step c jsonValid look) (fun l e => l.tame jsonValid room look e) (started core) events)
    (hrun : runFrom (Link.step c jsonValid look) (started core) events = some l) : Delivered initial l.history (look l.core) := by
  have hstart : (started core).Sound jsonValid multi B initial initial := by
    refine ⟨⟨hcore, rfl, ?_, ?_, ?_, ?_⟩, ?_⟩
    · exact nofun
    · exact nofun
    · exact nofun
    · exact nofun
    · exact nofun
  have hinvariant : ∃ file, l.Sound jsonValid multi B initial file := by
    refine Along.invariant (I := fun l => ∃ file, Sound jsonValid multi B initial l file) ?_ events ⟨initial, hstart⟩ htame hrun
    intro s e s' ⟨file, hs⟩ ht hstep
    exact hs.step hc hlook ht hstep
  obtain ⟨file, hsound⟩ := hinvariant
  rw [hlook hsound.backend]
  exact hsound.written

end Link

end

end CodexFold.Mount
