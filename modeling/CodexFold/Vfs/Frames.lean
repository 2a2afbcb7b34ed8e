import CodexFold.Vfs.Lineage

/- What the small programs leave alone.

   Each rule asks that an invariant survives the file effects of one program and
   concludes that it survives the program, however that ends. -/
namespace CodexFold.Vfs
open Foundation

section
variable {I : Directory → Prop}
variable {record : JournalRecord}

def Directory.dropCheckpoint (d : Directory) (l : Lineage) : Directory :=
  { d with checkpoints := d.checkpoints.filter (fun k => !decide (k = l)) }

theorem appendJournal_keeps
    (h : ∀ d, I d → I { d with journal := d.journal ++ [record] }) : Keeps I (appendJournal record) :=
  .bind' (.effect' _ _ h) fun _ => .point' _

variable {l : Lineage}

section
variable (hadd : ∀ d, I d → I { d with checkpointTemporaries := l :: d.checkpointTemporaries })
    (hdrop : ∀ d, I d → I { d with checkpointTemporaries := d.checkpointTemporaries.erase l })
    (hlink : ∀ d, I d → I { d with checkpoints := l :: d.checkpoints })
include hadd hdrop hlink

theorem writeImmutableStateCheckpoint_links :
    SpecOr I (writeImmutableStateCheckpoint l) (fun _ d => I d ∧ l ∈ d.checkpoints) I := by
  refine Spec.at' fun s h => Spec.readAt (Spec.ite' (fun hp => Spec.pure' _ fun t ht => ht ▸ ⟨h, by simpa using hp⟩) fun _ => ?_)
  refine Spec.pre (P := I) ?_ (held h)
  refine SpecOr.point' (fun _ h => h) fun _ => ?_
  -- once linked, the file stays: the steps after it only concern the temporary
  refine Spec.bind' (Spec.onFailure' (F := fun _ => I) ?_ ?_) (fun _ => SpecOr.final' (fun _ h => h.1) (fun _ h => h))
  · refine SpecOr.after (fun _ h => h) (Keeps.effect' _ _ hadd) fun _ => ?_
    refine SpecOr.point' (fun _ h => h) fun _ => ?_
    refine Spec.bind' (M := fun _ d => I d ∧ l ∈ d.checkpoints)
      (SpecOr.effect' (fun _ h => h) (fun d h => ⟨hlink d h, .head _⟩)) fun _ => ?_
    refine SpecOr.point' (fun _ h => h.1) fun _ => ?_
    exact SpecOr.effect' (fun _ h => h.1) fun d h => ⟨hdrop d h.1, h.2⟩
  · exact fun _ => Keeps.effect' _ _ hdrop

theorem writeImmutableStateCheckpoint_keeps : Keeps I (writeImmutableStateCheckpoint l) :=
  (writeImmutableStateCheckpoint_links hadd hdrop hlink).weaken fun _ _ h => h.1

end

theorem writeStateCatalog_keeps (h : ∀ d, I d → I { d with catalog := some l }) : Keeps I (writeStateCatalog l) :=
  .bind' (.point' _) fun _ => .bind' (.effect' _ _ h) fun _ => .point' _

theorem writeSessionState_keeps {s : SessionState} (h : ∀ d, I d → I { d with primary := some s }) :
    Keeps I (writeSessionState s) :=
  .bind' (.point' _) fun _ => .bind' (.effect' _ _ h) fun _ => .point' _

theorem quarantine_keeps (h : ∀ d, I d → I { d.dropCheckpoint l with orphans := l :: d.orphans }) :
    Keeps I (quarantine l) :=
  .bind' (.read' _) (fun _ =>
    .bind' (.ensure' _ _) (fun _ => .effect' _ _ h))

theorem reconcileStateCheckpointHistory_keeps
    (h : ∀ d l, I d → I { d.dropCheckpoint l with orphans := l :: d.orphans }) :
    Keeps I reconcileStateCheckpointHistory := by
  refine .bind' (.read' _) fun d => .bind' (.ofExcept' _) fun head => ?_
  refine .bind' (.ensure' _ _) fun _ => .ite' (.pure' _) ?_
  refine .bind' (.point' _) fun _ => ?_
  exact .bind' (.forEach' (fun l => quarantine_keeps (fun d hd => h d l hd))) (fun _ => .point' _)

theorem currentCheckpoint_keeps (h : Keeps I reconcileStateCheckpointHistory) :
    SpecOr I currentCheckpoint (fun r d => I d ∧ d.catalog = r) I := by
  refine .at' fun d hd => .readAt ?_
  split
  case h_1 hn => exact .pure' _ fun t ht => ht ▸ ⟨hd, hn⟩
  case h_2 _ head _ hok => exact .pure' _ fun t ht => ht ▸ ⟨hd, (loadStateCheckpointChain_ok.mp hok).1.1⟩
  case h_3 =>
    refine .bind' (h.pre (held hd)) fun _ => .at' fun d' hd' => .readAt ?_
    refine .checked (fun _ => held hd') fun head hok => .pure' _ fun t ht => ht ▸ ⟨hd', ?_⟩
    exact (loadStateCheckpointChain_ok.mp hok).1.1

theorem removeSupersededCheckpoint_keeps (h : ∀ d, I d → I (d.dropCheckpoint l)) :
    Keeps I (removeSupersededCheckpoint l) :=
  .bind' (.effect' _ _ h) fun _ => .point' _

theorem cleanupStateCheckpointTemporaries_keeps
    (h : ∀ d l, I d → I { d with checkpointTemporaries := d.checkpointTemporaries.erase l }) :
    Keeps I cleanupStateCheckpointTemporaries := by
  refine .bind' (.read' _) fun _ => .ite' (.pure' _) ?_
  exact .bind' (.forEach' (fun l => .effect' _ _ (fun d hd => h d l hd))) (fun _ => .point' _)

theorem removeOwned_keeps {path : DataFile} {valid : Bytes → Bool} {message : String}
    (h : ∀ d, I d → I (d.removeFile path)) : Keeps I (removeOwned path valid message) := by
  refine .bind' (.read' _) fun found => ?_
  cases found with
  | none => exact .pure' _
  | some _ =>
    exact .bind' (.ensure' _ _) (fun _ =>
      .bind' (.effect' _ _ h) (fun _ => .pure' _))

section

variable (h : ∀ d path, I d → I (d.removeFile path))
include h

theorem cleanupCOWTemporary_keeps : Keeps I (cleanupCOWTemporary record) := by
  refine .bind' (.ensure' _ _) fun _ => .bind' (.ensure' _ _) fun _ => ?_
  exact .bind' (removeOwned_keeps (fun d hd => h d _ hd)) (fun _ => .ite' (.point' _) (.pure' _))

theorem cleanupCompactArtifacts_keeps {rollback : Bool} : Keeps I (cleanupCompactArtifacts record rollback) := by
  refine .bind' (.ofExcept' _) fun candidate => ?_
  refine .bind' (removeOwned_keeps (fun d hd => h d _ hd)) fun _ => ?_
  refine .bind' (removeOwned_keeps (fun d hd => h d _ hd)) fun _ => ?_
  refine .bind' ?_ fun _ => .ite' (.point' _) (.pure' _)
  exact .ite' (removeOwned_keeps (fun d hd => h d _ hd)) (.pure' _)

theorem recoverTerminal_keeps : Keeps I (recoverTerminal record) := by
  unfold recoverTerminal
  cases record.kind with
  | compact =>
    refine .bind' (.read' _) (fun _ => .bind' (.ofExcept' _) (fun _ => ?_))
    exact .bind' (.ofExcept' _) (fun _ => cleanupCompactArtifacts_keeps h)
  | copyOnWrite => exact .ite' (cleanupCOWTemporary_keeps h) (.pure' _)

theorem recoverPrepared_keeps (hjournal : ∀ d records, I d → I { d with journal := records }) :
    Keeps I (recoverPrepared record) := by
  have hresolve : Keeps I (resolveRecord record .rolledBack) := appendJournal_keeps (fun d hd => hjournal d _ hd)
  unfold recoverPrepared
  cases record.kind with
  | copyOnWrite => exact .bind' (cleanupCOWTemporary_keeps h) (fun _ => hresolve)
  | compact =>
    refine .bind' (.read' _) (fun _ => .bind' (.ofExcept' _) (fun _ => ?_))
    exact .bind' (.ofExcept' _) fun _ => .bind' (cleanupCompactArtifacts_keeps h) fun _ => hresolve

end

end

end CodexFold.Vfs
