import CodexFold.Mount.Promises
import CodexFold.Mount.Requests

/- The journals that recovery accepts.

   A commit journals under the path its append state has by then, and recovery refuses a
   journal for a path that is not one of a session. An append state starts at such a path,
   but a rename takes it along to whatever name the file gets. A mount that has served its
   requests without a fault has no journal; if it is cut off in a commit, the journal it
   leaves is accepted as long as the file still has the name of a session. -/
namespace CodexFold.Mount
open Foundation Option

def Request.commitsThrough : Request → Option Nat
  | .flush id => some id
  | .fsync id => some id
  | .useRandomWrites id => some id
  | .release id => some id
  | _ => none

section
variable {jsonValid : Bytes → Bool} {m t : Native}

/-! ## Requests without a fault -/

def Disk.Unjournaled (d : Disk) : Prop := d.journals.entries = []

section

variable {d : Disk} (h : d.Unjournaled)
include h

theorem Disk.Unjournaled.durable {t : Disk} (ht : t.durable = d.durable) : t.Unjournaled :=
  (congrArg (fun d => d.journals.entries) ht : t.journals.entries = d.journals.entries).trans h

theorem syncNativePath_unjournaled (path : Path) :
    Concludes (syncNativePath path) d (fun _ => Disk.Unjournaled) fun _ => Disk.Unjournaled := by
  refine .bind' (openPath_concludes d path) (fun _ d' hd' => ?_) fun _ d' hd' => hd'.1 ▸ h
  exact .point' (.of_runs (.point' _ d') (hd'.1 ▸ h))

theorem commitNativeAppend_unjournaled (path : Path) (size : Nat) (tail : Bytes) :
    Concludes (commitNativeAppend path size tail) d (fun _ => Disk.Unjournaled) fun _ => Disk.Unjournaled := by
  by_cases hfile : ∃ o, d.files.get path = some o ∧ (d.contents o).length = size
  · obtain ⟨o, hfile, rfl⟩ := hfile
    obtain ⟨d', hrun, hd'⟩ := commitNativeAppend_runs tail hfile
    refine .of_runs hrun ?_
    have herased : (d.journals.erase path).entries = [] := by simp [Files.erase, show d.journals.entries = [] from h]
    exact (congrArg (fun d => d.journals.entries) hd').trans herased
  · -- refused before anything is written
    refine .bind' (openPath_concludes d path) ?_ fun _ t ht => ht.1 ▸ h
    rintro object t ⟨rfl, hobject⟩
    refine .read' (.ensure' (fun hsize => ?_) fun _ => h)
    exact absurd ⟨object, hobject, by simpa using hsize⟩ hfile

end

variable {a : Appending}

theorem commit_unjournaled (h : a.disk.Unjournaled) (strict : Bool) :
    Concludes (commit jsonValid strict) a (fun _ t => t.disk.Unjournaled) fun _ t => t.disk.Unjournaled := by
  have hdrop : ∀ e : String, Concludes (do clearPending; throw e : AppendProg Unit) a (fun _ t => t.disk.Unjournaled)
      fun _ t => t.disk.Unjournaled := fun e => .modify' (.throw' h)
  refine .read' ?_
  split
  · exact .onPart' (syncNativePath_unjournaled h _)
  cases a.state.assembleLocked with
  | error e =>
    dsimp only
    split
    · exact .pure' h
    · exact hdrop e
  | ok tail =>
    dsimp only [commitTail]
    split
    · split
      · exact .pure' h
      · exact hdrop _
    split
    · exact hdrop _
    refine .bind' (M := fun _ t => t.disk.Unjournaled)
      (.onFailure' (.onPart' ((commitNativeAppend_unjournaled h _ _ _).mono (fun _ _ h => h)
        fun _ d hd => .of_runs (show Runs clearPending _ () _ from rfl) hd))) (fun _ t ht => ?_) fun _ _ h => h
    exact .modify' (.of_runs (show Runs clearPending _ () _ from rfl) ht)

theorem commitStaged_unjournaled (h : m.disk.Unjournaled) (x : Handle) (strict : Bool) :
    Concludes (commitStaged jsonValid x strict) m (fun _ t => t.disk.Unjournaled) fun _ t => t.disk.Unjournaled := by
  unfold commitStaged
  split
  · exact .onPart' (commit_unjournaled h strict)
  · exact .pure' h

theorem handle_unjournaled {α : Type} {k : Handle → NativeProg α} (h : m.disk.Unjournaled) (id : Nat)
    (hk : ∀ x, Concludes (k x) m (fun _ t => t.disk.Unjournaled) fun _ t => t.disk.Unjournaled) :
    Concludes (handle id >>= k) m (fun _ t => t.disk.Unjournaled) fun _ t => t.disk.Unjournaled := by
  refine .bind' (M := fun _ t => t = m) (F := fun _ t => t = m) (.read' ?_) (fun x t ht => ht ▸ hk x)
    fun _ => held h
  cases m.handles.get id with
  | some x => exact .pure' rfl
  | none => exact .throw' rfl

variable {r : Request}

theorem Request.commits_unjournaled (h : m.disk.Unjournaled) {id : Nat} (hr : r.commitsThrough = some id) :
    Concludes (r.run jsonValid) m (fun _ t => t.disk.Unjournaled) fun _ t => t.disk.Unjournaled := by
  cases r with
  | flush id => exact handle_unjournaled h id fun x => .read' (commitStaged_unjournaled h x _)
  | fsync id =>
    refine handle_unjournaled h id fun x => ?_
    split
    · exact .onPart' (commit_unjournaled h false)
    · exact .of_runs (.point' _ m) h
  | useRandomWrites id =>
    refine handle_unjournaled h id fun x => ?_
    exact .bind' (commitStaged_unjournaled h x true) (fun _ t ht =>
      .of_runs (show Runs (modify _) t () _ from rfl) ht) fun _ _ h => h
  | release id =>
    refine handle_unjournaled h id fun x => .read' (.modify' (.attempt' ?_))
    refine (commitStaged_unjournaled (m := { m with handles := m.handles.erase id }) h x _).mono
      (fun _ t ht => .point' (.pure' ht)) fun _ t ht => .point' (.throw' ht)
  | opens | write | truncate | truncatePath | rename | unlink => cases hr

/-! ## What a request leaves on the disk -/

theorem Truncated.journals {k : Nat} {size : Int} (h : Truncated k size m t) : t.disk.journals = m.disk.journals := by
  cases h with
  | before ht => rw [ht]
  | cut o s _ _ _ _ _ ht => rw [ht]; rfl

theorem openNativeBacking_journals {d d' : Disk} {path : Path} {create excl : Bool} {o : Nat}
    (h : d.openNativeBacking path create excl = .ok (o, d')) : d'.journals = d.journals := by
  rcases openNativeBacking_cases h with ⟨-, rfl⟩ | ⟨-, -, -, rfl⟩
  · rfl
  · rfl

theorem Served.journals {up : Bool} (h : Served jsonValid up m r t) (hr : r.commitsThrough = none) :
    t.disk.journals = m.disk.journals := by
  cases h with
  | refused => rfl
  | staged _ _ ha => exact congrArg Disk.journals ha.1
  | wrote => rfl
  | committed _ _ hhandled =>
    cases hhandled with
    | flush | fsync | staging | random | released => cases hr
  | truncated _ ht => exact ht.journals
  | truncatedPath _ hloaded ht => rw [ht.journals, hloaded.same.1]
  | created _ hopen => exact openNativeBacking_journals hopen
  | loaded _ hopen hloaded ht _ =>
    rw [ht.journals, hloaded.same.1]
    exact openNativeBacking_journals hopen
  | opened _ hopen hloaded ht _ =>
    rw [show Disk.journals _ = _ from ht.journals, hloaded.same.1]
    exact openNativeBacking_journals hopen
  | renamed _ _ _ hrename =>
    rw [relocated_disk]
    exact (rename_frame hrename).2.2
  | removed _ _ hremove => exact (remove_frame hremove).2.2.2

theorem Request.run_unjournaled (h : m.disk.Unjournaled) (r : Request) : (r.run jsonValid [] m).2.1.disk.Unjournaled := by
  cases hr : r.commitsThrough with
  | none =>
    obtain ⟨up, (hserved : Served jsonValid up m r _)⟩ := r.ends m []
    exact (congrArg Files.entries (hserved.journals hr)).trans h
  | some id =>
    rcases (Request.commits_unjournaled h hr : Concludes (r.run jsonValid) m _ _) with ⟨_, t, hrun, ht⟩ | ⟨_, t, hrun, ht⟩
    · rw [hrun.eq]
      exact ht
    · rw [hrun]
      exact ht

def Disk.Recoverable (d : Disk) : Prop := d.Unjournaled ∨ ∃ o record, Carries d.durable o record

theorem Disk.Recoverable.recovers {d u : Disk} (h : d.Recoverable) (hu : Interrupted d u) :
    ∃ v, Runs recoverNativeAppendTransactions u () v ∧ v.Unjournaled := by
  rcases h with h | ⟨o, record, h⟩
  · have hentries : d.durable.journals.entries = [] := h
    obtain ⟨_, v, hr, hv⟩ := (recover_survives_nil hentries).runs (interrupted_nil hentries rfl hu)
    exact ⟨v, hr, h.durable hv⟩
  · obtain ⟨v, hr, hv⟩ := h.recovers rfl hu
    refine ⟨v, hr, ?_⟩
    have hentries := h.settled.unjournaled
    rw [← hv] at hentries
    exact hentries

/-- What a commit would write is journaled for a path that recovery accepts. -/
def Recorded (jsonValid : Bytes → Bool) (m : Native) (r : Request) : Prop :=
  ∀ id h, r.commitsThrough = some id → m.handles.get id = some h → h.append = true →
    ∀ o tail, Commits jsonValid (m.getState h.state) o tail → nativeTransactionPath (m.states h.state).path = true

theorem assembleLocked_of_committing {w : Written} (h : a.committing = some w) :
    a.state.assembleLocked = .ok w.data := by
  unfold Appending.committing at h
  split at h
  · cases h
  split at h
  · cases h
  split at h
  · obtain ⟨o, -, rfl⟩ := map_eq_some_iff.mp h
    assumption
  · cases h

theorem CommitStopped.recoverable {b : Appending} (h : CommitStopped jsonValid a b) (hnone : a.disk.Unjournaled)
    (hpath : ∀ o tail, Commits jsonValid a o tail → nativeTransactionPath a.state.path) : b.disk.Recoverable := by
  rcases h.disk with hdisk | ⟨o, tail, hcommits, hduring⟩
  · exact .inl (hnone.durable hdisk)
  have htail : a.state.assembleLocked = .ok tail := assembleLocked_of_committing hcommits.committing
  cases hduring with
  | before hdisk => exact .inl (hnone.durable hdisk)
  | writing k hdisk =>
    have hcarries := carries_writing (hpath o tail hcommits) hcommits.file hnone (length_le_of_assembleLocked htail) k
    rw [← show b.disk.durable = _ from hdisk] at hcarries
    exact .inr ⟨o, _, hcarries⟩
  | after bytes _ hdisk =>
    have herased : (a.disk.journals.erase a.state.path).entries = [] := by
      simp [Files.erase, show a.disk.journals.entries = [] from hnone]
    have hentries : b.disk.journals.entries = (a.disk.journals.erase a.state.path).entries :=
      congrArg (fun d => d.journals.entries) hdisk
    exact .inl (hentries.trans herased)

/-- The step lemma: whatever becomes of the request, recovery accepts the disk. -/
theorem Served.recoverable {up : Bool} (h : Served jsonValid up m r t) (hnone : m.disk.Unjournaled)
    (hrecorded : Recorded jsonValid m r) : t.disk.Recoverable := by
  cases hr : r.commitsThrough with
  | none => exact .inl ((congrArg Files.entries (h.journals hr)).trans hnone)
  | some id =>
    cases h with
    | refused => exact .inl hnone
    | @committed r other x a handles hget ha hhandled =>
      have hid : id = other := by
        cases hhandled with
        | flush | fsync | staging | random | released => exact (some.inj hr).symm
      rcases ha with ⟨-, rfl⟩ | ⟨happend, ha⟩
      · exact .inl hnone
      · exact ha.recoverable hnone (hrecorded id x hr (hid ▸ hget) happend)
    | staged | wrote | truncated | truncatedPath | created | loaded | opened | renamed | removed => cases hr

end

/-! ## Runs -/

def Native.serve (jsonValid : Bytes → Bool) (m : Native) (r : Request) : Option Native := some (r.run jsonValid [] m).2.1

def stagedRun : List Request := [.opens Appending.sample.state.path OpenFlags.sample, .write 1 [50, 10] 1]

def stagedNative : Option Native := runFrom (Native.serve digits) (Native.started Disk.sample) stagedRun

theorem stagedNative_paths : ∀ e ∈ stagedNative, ∀ h ∈ e.handles.get 1,
    nativeTransactionPath (e.states h.state).path = true := by
  decide +kernel

theorem stagedRun_recorded : Along (Native.serve digits) (Recorded digits) (Native.started Disk.sample)
    (stagedRun ++ [.flush 1]) := by
  refine Along.append stagedRun (Along.of_forall stagedRun fun t r hr id h hid => ?_) fun t ht => ⟨fun id h hid hget _ _ _ _ => ?_, fun _ _ => trivial⟩
  · simp only [stagedRun, List.mem_cons, List.not_mem_nil, or_false] at hr
    rcases hr with rfl | rfl
    · cases hid
    · cases hid
  · cases hid
    exact stagedNative_paths t ht h hget

def renamedAside : List Request :=
  stagedRun ++ [.rename false Appending.sample.state.path [sessions, ['a', '.', 'b', 'a', 'k']]]

def renamedNative : Option Native := runFrom (Native.serve digits) (Native.started Disk.sample) renamedAside

end CodexFold.Mount
