import CodexFold.Mount.Refusals
import CodexFold.Mount.Stale

/- An appending client across restarts of the daemon.

   The client writes complete records at the size it believes the file to have: the size
   at its open and what has been acknowledged since. A crash loses what is pending, and
   the client does not learn of it. A write at the end of what is left is appended; one
   beyond it falls back to a positional write, which leaves a hole. -/
namespace CodexFold.Mount
open Foundation List Option

structure AppendClient where
  serving : Serving Native
  size : Nat
  sent : List Bytes

inductive ClientEvent where
  | write (records : Bytes)
  | flush
  | reopen
  | restart

section
variable (jsonValid : Bytes → Bool) (path : Path) (flags : OpenFlags)

def AppendClient.opens (m : Native) (size : Nat) (sent : List Bytes) : Option AppendClient :=
  match openNative path flags [] m with
  | (.done id, m, _) => some ⟨⟨m, addHandle id⟩, size, sent⟩
  | _ => none

def AppendClient.step (l : AppendClient) : ClientEvent → Option AppendClient
  | .write records =>
    match writeHandle (nativeCore jsonValid path flags) jsonValid records l.size [] l.serving with
    | (.done (n, _), s, _) => some ⟨s, l.size + n, l.sent ++ [records]⟩
    | (.failed _, s, _) => some ⟨s, l.size, l.sent ++ [records]⟩
    | (.crashed, _, _) => none
  | .flush =>
    match flush jsonValid l.serving.handle.coreHandle [] l.serving.core with
    | (.crashed, _, _) => none
    | (_, m, _) => some { l with serving := { l.serving with core := m } }
  | .reopen =>
    match release jsonValid l.serving.handle.coreHandle [] l.serving.core with
    | (.crashed, _, _) => none
    | (_, m, _) => AppendClient.opens path flags m l.size l.sent
  | .restart =>
    match recoverNativeAppendTransactions [] l.serving.core.disk with
    | (.done _, d, _) => AppendClient.opens path flags (Native.started d) l.size l.sent
    | _ => none

def AppendClient.Within (l : AppendClient) : ClientEvent → Prop
  | .write records => completeJSONL jsonValid records = true ∧ l.size ≤ (l.serving.core.visible path).length
  | _ => True

instance (l : AppendClient) (e : ClientEvent) : Decidable (l.Within jsonValid path e) :=
  match e with
  | .write records => inferInstanceAs (Decidable (completeJSONL jsonValid records = true ∧ _ ≤ _))
  | .flush | .reopen | .restart => inferInstanceAs (Decidable True)

end

/-! ## The invariant -/

section
variable {jsonValid : Bytes → Bool} {path : Path} {flags : OpenFlags} {initial : Bytes}
variable {o : Nat} {kept pending : List Bytes} {l l' : AppendClient}

theorem complete_flatten : ∀ {records : List Bytes}, (∀ r ∈ records, completeJSONL jsonValid r) →
    records.flatten = [] ∨ completeJSONL jsonValid records.flatten
  | [], _ => .inl rfl
  | r :: rest, h => by
    have hr := h r (.head _)
    refine .inr ?_
    rw [flatten_cons]
    rcases complete_flatten fun r hr => h r (.tail _ hr) with hnil | hrest
    · rw [hnil, append_nil]
      exact hr
    · exact complete_append hr hrest

/-- The file has the writes `kept` behind what it had at first, those of `pending` are staged
    behind them, both are writes the client has sent, and they are no more than the client
    believes. -/
structure AppendClient.Keeps (path : Path) (jsonValid : Bytes → Bool) (initial : Bytes) (l : AppendClient)
    (kept pending : List Bytes) (k o : Nat) : Prop where
  growing : Growing l.serving.core path k o (initial ++ kept.flatten) pending.flatten
  stages : l.serving.core.Stages l.serving.handle.coreHandle path k o
  snapshotWrite : l.serving.handle.snapshotWrite = true
  complete : ∀ r ∈ pending, completeJSONL jsonValid r = true
  unjournaled : l.serving.core.disk.Unjournaled
  sent : (kept ++ pending).Sublist l.sent
  size : (initial ++ kept.flatten ++ pending.flatten).length ≤ l.size

theorem AppendClient.opens_keeps {m : Native} {size : Nat} {sent : List Bytes}
    (hpath : nativeTransactionPath path) (hwritable : flags.writable) (htrunc : flags.trunc = false)
    (hidle : m.Idle path) (hnamed : m.disk.files.get path = some o) (hcontents : m.disk.contents o = initial ++ kept.flatten)
    (hunjournaled : m.disk.Unjournaled) (hsent : kept.Sublist sent) (hsize : (initial ++ kept.flatten).length ≤ size)
    (hopen : AppendClient.opens path flags m size sent = some l) : ∃ k o, l.Keeps path jsonValid initial kept [] k o := by
  unfold AppendClient.opens at hopen
  rcases openNative_idle hwritable hpath hidle with ⟨id, t, hrun, rfl, k, o', file, ht, hhandles, -, hjournals, hfile⟩ |
    ⟨e, t, hrun, -⟩
  · rw [hrun.eq] at hopen
    cases hopen
    obtain rfl := (hfile htrunc o hnamed).trans hcontents
    refine ⟨k, o', ht, ⟨stagingHandle path k o', ?_, rfl, rfl, rfl, rfl⟩, rfl, nofun, ?_, ?_, ?_⟩
    · rw [show t.handles = _ from hhandles]
      exact get_set_self ..
    · exact (congrArg Files.entries hjournals).trans hunjournaled
    · rw [append_nil]
      exact hsent
    · rw [flatten_nil, append_nil]
      exact hsize
  · rw [hrun] at hopen
    cases hopen

section

variable {k : Nat} (hl : l.Keeps path jsonValid initial kept pending k o)
include hl

theorem AppendClient.Keeps.write {records : Bytes} (hwithin : l.Within jsonValid path (.write records))
    (hstep : l.step jsonValid path flags (.write records) = some l') :
    ∃ pending', l'.Keeps path jsonValid initial kept pending' k o := by
  obtain ⟨hcomplete, hle⟩ := hwithin
  have hsize : l.size = (initial ++ kept.flatten ++ pending.flatten).length := by
    rw [hl.growing.visible] at hle
    exact le_antisymm hle hl.size
  have hwrite := writeHandle_end (c := nativeCore jsonValid path flags) hl.snapshotWrite (getattrNative_runs hl.growing hl.stages)
    hcomplete (write_growing hl.growing hl.stages (complete_ne_nil hcomplete))
  rw [← hsize] at hwrite
  unfold AppendClient.step at hstep
  dsimp only at hstep
  rcases hwrite with ⟨_, t, hrun, rfl, hcore, hsnapshot, _, ht, hhandles, -, hdisk⟩ | ⟨e, t, hrun, hhandle, hhandles, -, hdisk, ht⟩
  · rw [hrun.eq] at hstep
    cases hstep
    have hflatten : (pending ++ [records]).flatten = pending.flatten ++ records := by simp
    refine ⟨pending ++ [records], ?_, ?_, hsnapshot, ?_, ?_, ?_, ?_⟩
    · rw [hflatten]
      exact ht
    · show t.core.Stages t.handle.coreHandle path k o
      rw [hcore]
      exact hl.stages.of_handles hhandles
    · intro r hr
      rcases mem_append.mp hr with hr | hr
      · exact hl.complete r hr
      · rw [mem_singleton.mp hr]
        exact hcomplete
    · show t.core.disk.Unjournaled
      rw [hdisk]
      exact hl.unjournaled
    · rw [← append_assoc]
      exact hl.sent.append (Sublist.refl _)
    · show _ ≤ l.size + records.length
      rw [hflatten, ← append_assoc, length_append, hsize]
  · rw [hrun] at hstep
    cases hstep
    -- what was pending is still pending, or has been dropped
    have hkeeps : ∀ pending', Growing t.core path k o (initial ++ kept.flatten) pending'.flatten → pending'.Sublist pending →
        pending'.flatten.Sublist pending.flatten → AppendClient.Keeps path jsonValid initial ⟨t, l.size, l.sent ++ [records]⟩ kept pending' k o := by
      intro pending' hgrowing hsub hflatten
      refine ⟨hgrowing, ?_, ?_, fun r hr => hl.complete r (hsub.subset hr), ?_, ?_, ?_⟩
      · show t.core.Stages t.handle.coreHandle path k o
        rw [hhandle]
        exact hl.stages.of_handles hhandles
      · show t.handle.snapshotWrite = true
        rw [hhandle]
        exact hl.snapshotWrite
      · show t.core.disk.Unjournaled
        rw [hdisk]
        exact hl.unjournaled
      · exact (((Sublist.refl kept).append hsub).trans hl.sent).trans (sublist_append_left _ _)
      · calc (initial ++ kept.flatten ++ pending'.flatten).length
            ≤ (initial ++ kept.flatten ++ pending.flatten).length :=
              (hflatten.append_left _).length_le
          _ ≤ l.size := hl.size
    rcases ht with ht | ⟨ht, -⟩
    · exact ⟨pending, hkeeps pending ht (Sublist.refl _) (Sublist.refl _)⟩
    · exact ⟨[], hkeeps [] ht (nil_sublist _) (nil_sublist _)⟩

theorem AppendClient.Keeps.settled :
    (initial ++ kept.flatten) ++ pending.flatten = initial ++ (kept ++ pending).flatten ∧
      (initial ++ (kept ++ pending).flatten).length ≤ l.size := by
  have hflatten : (initial ++ kept.flatten) ++ pending.flatten = initial ++ (kept ++ pending).flatten := by
    rw [flatten_append, append_assoc]
  exact ⟨hflatten, hflatten ▸ hl.size⟩

theorem AppendClient.Keeps.flush (hstep : l.step jsonValid path flags .flush = some l') :
    l'.Keeps path jsonValid initial (kept ++ pending) [] k o := by
  obtain ⟨hflatten, hsize⟩ := hl.settled
  obtain ⟨t, hrun, ht, hhandles, -⟩ := flush_growing hl.growing hl.stages (complete_flatten hl.complete)
  have hunjournaled : (Mount.flush jsonValid l.serving.handle.coreHandle [] l.serving.core).2.1.disk.Unjournaled :=
    Request.run_unjournaled hl.unjournaled (.flush l.serving.handle.coreHandle)
  unfold AppendClient.step at hstep
  dsimp only at hstep
  rw [hrun.eq] at hstep hunjournaled
  cases hstep
  refine ⟨?_, hl.stages.of_handles hhandles, hl.snapshotWrite, nofun, hunjournaled, ?_, ?_⟩
  · rw [← hflatten]
    exact ht
  · rw [append_nil]
    exact hl.sent
  · rw [flatten_nil, append_nil]
    exact hsize

end

section

variable (hpath : nativeTransactionPath path = true)
include hpath

section

variable (hwritable : flags.writable = true)
include hwritable

section

variable (htrunc : flags.trunc = false)
include htrunc

section

variable {k : Nat} (hl : l.Keeps path jsonValid initial kept pending k o)
include hl

theorem AppendClient.Keeps.reopen (hstep : l.step jsonValid path flags .reopen = some l') :
    ∃ k o, l'.Keeps path jsonValid initial (kept ++ pending) [] k o := by
  obtain ⟨hflatten, hsize⟩ := hl.settled
  obtain ⟨t, hrun, ht, -, -⟩ := release_growing hl.growing hl.stages (complete_flatten hl.complete)
  have hunjournaled : (release jsonValid l.serving.handle.coreHandle [] l.serving.core).2.1.disk.Unjournaled :=
    Request.run_unjournaled hl.unjournaled (.release l.serving.handle.coreHandle)
  unfold AppendClient.step at hstep
  dsimp only at hstep
  rw [hrun.eq] at hstep hunjournaled
  exact AppendClient.opens_keeps hpath hwritable htrunc ht.idle ht.named (ht.contents.trans hflatten) hunjournaled hl.sent hsize
    hstep

theorem AppendClient.Keeps.restart (hstep : l.step jsonValid path flags .restart = some l') :
    ∃ k o, l'.Keeps path jsonValid initial kept [] k o := by
  have hentries : l.serving.core.disk.durable.journals.entries = [] := hl.unjournaled
  obtain ⟨_, d, hrun, hd⟩ := (recover_survives_nil hentries).runs rfl
  unfold AppendClient.step at hstep
  dsimp only at hstep
  rw [hrun.eq] at hstep
  have hnamed : d.files.get path = some o := by
    rw [Disk.durable_files hd]
    exact hl.growing.named
  have hcontents : d.contents o = initial ++ kept.flatten := by
    rw [Disk.durable_contents hd]
    exact hl.growing.contents
  refine AppendClient.opens_keeps hpath hwritable htrunc (fun k hk => by cases hk) hnamed hcontents (hl.unjournaled.durable hd)
    ((sublist_append_left _ _).trans hl.sent) ?_ hstep
  calc (initial ++ kept.flatten).length ≤ (initial ++ kept.flatten ++ pending.flatten).length :=
        (sublist_append_left _ _).length_le
    _ ≤ l.size := hl.size

end

/-- The step lemma. -/
theorem AppendClient.Keeps.step {e : ClientEvent}
    (hl : ∃ kept pending k o, l.Keeps path jsonValid initial kept pending k o) (hwithin : l.Within jsonValid path e)
    (hstep : l.step jsonValid path flags e = some l') :
    ∃ kept pending k o, l'.Keeps path jsonValid initial kept pending k o := by
  obtain ⟨kept, pending, k, o, hl⟩ := hl
  cases e with
  | write records =>
    obtain ⟨pending', hl'⟩ := hl.write hwithin hstep
    exact ⟨kept, pending', k, o, hl'⟩
  | flush => exact ⟨kept ++ pending, [], k, o, hl.flush hstep⟩
  | reopen =>
    obtain ⟨k', o', hl'⟩ := hl.reopen hpath hwritable htrunc hstep
    exact ⟨kept ++ pending, [], k', o', hl'⟩
  | restart =>
    obtain ⟨k', o', hl'⟩ := hl.restart hpath hwritable htrunc hstep
    exact ⟨kept, [], k', o', hl'⟩

end

end

end

end

/-! ## Runs with restarts -/

def Disk.stored (d : Disk) (path : Path) : Bytes :=
  match d.files.get path with
  | none => []
  | some o => d.contents o

def AppendClient.started (m : Native) (id : Nat) (path : Path) : AppendClient :=
  ⟨⟨m, addHandle id⟩, (m.visible path).length, []⟩

/-- In every run in which each write begins within the file, the file is what it was at
    first and some of the writes the client sent, in order, and so is what it shows. -/
theorem appending_leaves_no_hole (jsonValid : Bytes → Bool) {path : Path} {flags : OpenFlags} {d : Disk} {m : Native} {id : Nat}
    {events : List ClientEvent} {l : AppendClient} (hpath : nativeTransactionPath path = true)
    (hwritable : flags.writable = true) (htrunc : flags.trunc = false) (hd : d.Unjournaled)
    (hopen : Runs (openNative path flags) (Native.started d) id m)
    (hevents : Along (AppendClient.step jsonValid path flags) (AppendClient.Within jsonValid path)
      (AppendClient.started m id path) events)
    (hrun : runFrom (AppendClient.step jsonValid path flags) (AppendClient.started m id path) events = some l) :
    ∃ kept pending : List Bytes, (kept ++ pending).Sublist l.sent ∧
      l.serving.core.disk.stored path = m.visible path ++ kept.flatten ∧
      l.serving.core.visible path = m.visible path ++ (kept ++ pending).flatten := by
  have hstart : ∃ kept pending k o, (AppendClient.started m id path).Keeps path jsonValid (m.visible path) kept pending k o := by
    have hidle : (Native.started d).Idle path := nofun
    obtain ⟨rfl, k, o, file, hm, hhandles, -, hjournals, -⟩ := (openNative_idle hwritable hpath hidle).returned hopen
    have hvisible : m.visible path = file := hm.visible.trans (append_nil file)
    refine ⟨[], [], k, o, ?_, ⟨stagingHandle path k o, ?_, rfl, rfl, rfl, rfl⟩, rfl, nofun, ?_,
      nil_sublist _, ?_⟩
    · rw [flatten_nil, append_nil, hvisible]
      exact hm
    · show m.handles.get _ = _
      rw [hhandles]
      exact get_set_self ..
    · exact (congrArg Files.entries hjournals).trans hd
    · rw [flatten_nil, append_nil, append_nil]
      exact le_refl _
  obtain ⟨kept, pending, k, o, hl⟩ :=
    Along.invariant
      (fun _ _ _ h hc hs => AppendClient.Keeps.step hpath hwritable htrunc h hc hs) events hstart hevents hrun
  refine ⟨kept, pending, hl.sent, ?_, hl.growing.visible.trans hl.settled.1⟩
  unfold Disk.stored
  rw [hl.growing.named]
  exact hl.growing.contents

def flushedRun : List ClientEvent := [.write [50, 10], .flush, .restart, .write [51, 10]]

def AppendClient.runSample (events : List ClientEvent) : Option AppendClient :=
  runFrom (AppendClient.step digits Appending.sample.state.path OpenFlags.sample)
    (AppendClient.started openedNative 1 Appending.sample.state.path) events

theorem appending_leaves_no_hole_flushed : ∃ l, AppendClient.runSample flushedRun = some l ∧ l.sent = [[50, 10], [51, 10]] ∧
    ∃ kept pending : List Bytes, (kept ++ pending).Sublist l.sent ∧
      l.serving.core.disk.stored Appending.sample.state.path =
        openedNative.visible Appending.sample.state.path ++ kept.flatten ∧
      l.serving.core.visible Appending.sample.state.path =
        openedNative.visible Appending.sample.state.path ++ (kept ++ pending).flatten :=
  ⟨(AppendClient.runSample flushedRun).get (by decide +kernel), (some_get _).symm, by decide +kernel,
    appending_leaves_no_hole digits (d := Disk.sample) (by decide +kernel)
      rfl rfl rfl openedNative_runs (by decide +kernel) (some_get _).symm⟩

def lostRun : List ClientEvent := [.write [50, 10], .restart, .write [51, 10]]

/-- Two bytes that nobody wrote are between the file and the second record. -/
theorem appending_leaves_hole : ∃ l, AppendClient.runSample lostRun = some l ∧ l.sent = [[50, 10], [51, 10]] ∧
    openedNative.visible Appending.sample.state.path = [49] ∧
    l.serving.core.disk.stored Appending.sample.state.path = [49, 0, 0, 51, 10] :=
  ⟨(AppendClient.runSample lostRun).get (by decide +kernel), (some_get _).symm, by decide +kernel⟩

end CodexFold.Mount
