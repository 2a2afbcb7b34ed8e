import CodexFold.Scan.Stream

/- Evaluate: an index over many rollouts, kept up to date (`internal/scan/evaluate.go`).

   A rollout that was never scanned is read whole. One that has grown since its last scan
   is read from there on for its records and fields, while its chunks are deleted and
   rebuilt; a rollout that has not changed is skipped. Each rollout is one transaction of
   the index, with its saved state. The rollouts do not change while Evaluate runs; which
   sessions it looks at is given as a list of paths. -/
namespace CodexFold.Scan
open Foundation List

structure Rollout where
  content : Bytes
  modTimeNanos : Int
  deriving DecidableEq, Repr

/-- `wholeCorpus` is set when every session was selected, without a limit. -/
structure Options where
  incremental : Bool
  wholeCorpus : Bool
  layers : Layers
  minFieldBytes : Int
  maxJSONLineBytes : Int
  cdc : Cdc.Options
  deriving DecidableEq, Repr

structure FileSnapshot where
  size : Nat
  modTimeNanos : Int
  deriving DecidableEq, Repr

structure Candidate where
  rolloutPath : String
  snapshot : FileSnapshot
  deriving DecidableEq, Repr

structure Result where
  sessionCount : Nat
  skippedSessionCount : Nat
  appendedSessionCount : Nat
  processedBytes : Nat
  deriving DecidableEq, Repr

def newResult : Result := ⟨0, 0, 0, 0⟩

def normalizeScanOptions (options : Options) : Options :=
  { options with
    minFieldBytes := if options.minFieldBytes ≤ 0 then defaultDedupMinFieldBytes else options.minFieldBytes
    maxJSONLineBytes :=
      if options.maxJSONLineBytes ≤ 0 then defaultDedupMaxJSONLineBytes else options.maxJSONLineBytes
    cdc := options.cdc.withDefaults }

def scanConfiguration (layers : Layers) (options : Options) : Configuration :=
  ⟨layers, options.minFieldBytes, options.maxJSONLineBytes, options.cdc⟩

def dedupOptions (layers : Layers) (options : Options) : DedupScanOptions :=
  ⟨layers, options.minFieldBytes, options.maxJSONLineBytes, options.cdc⟩

def snapshotFile (rollout : Rollout) : FileSnapshot := ⟨rollout.content.length, rollout.modTimeNanos⟩

def selectCandidates (rollouts : Files String Rollout) (paths : List String) : List Candidate :=
  paths.filterMap fun path => (rollouts.get path).map fun rollout => ⟨path, snapshotFile rollout⟩

def addFileStats (total current : DedupFileStats) : DedupFileStats where
  scannedBytes := total.scannedBytes + current.scannedBytes
  recordCount := total.recordCount + current.recordCount
  parsedRecordCount := total.parsedRecordCount + current.parsedRecordCount
  oversizedRecordCount := total.oversizedRecordCount + current.oversizedRecordCount
  invalidJSONRecordCount := total.invalidJSONRecordCount + current.invalidJSONRecordCount
  fieldCount := total.fieldCount + current.fieldCount
  fieldBytes := total.fieldBytes + current.fieldBytes
  cdcChunkCount := total.cdcChunkCount + current.cdcChunkCount
  cdcBytes := total.cdcBytes + current.cdcBytes

section
variable {Digest : Type} [DecidableEq Digest] (sha256 : Bytes → Digest) (decoder : JsonRaw.Decoder)
  (isSyntaxError : String → Bool) (rollouts : Files String Rollout)

variable (path : String)

def openRollout : Scanner Digest Bytes :=
  match rollouts.get path with
  | none => throw "open rollout"
  | some rollout => do
    point "open rollout"
    pure rollout.content

def hashFilePrefix (size : Nat) : Scanner Digest Bytes := do
  let content ← openRollout rollouts path
  let hasher := content.take size
  ensure (decide (hasher.length = size)) "rollout shorter than its scanned part"
  pure hasher

def verifyScannedPrefix (size : Nat) (expectedDigest : Digest) : Scanner Digest Unit := do
  let hasher ← hashFilePrefix rollouts path size
  ensure (decide (sha256 hasher = expectedDigest)) "rollout changed while it was scanned"

def filePrefixEndsWithNewline (size : Nat) : Scanner Digest Bool :=
  if size = 0 then pure true
  else do
    let content ← openRollout rollouts path
    match content[size - 1]? with
    | none => throw "read rollout final byte"
    | some last => pure (decide (last = Fold.newline))

variable (current : Candidate) (layers : Layers)

def scanWholeFile (options : Options) :
    Scanner Digest (DedupFileStats × Digest × Bool) := do
  point "context canceled"
  let content ← openRollout rollouts current.rolloutPath
  let hasher := content.take current.snapshot.size
  let stats ← scanDedupStream sha256 decoder isSyntaxError (dedupOptions layers options) hasher
  point "close rollout"
  let digest := sha256 hasher
  verifyScannedPrefix sha256 rollouts current.rolloutPath current.snapshot.size digest
  let endsWithNewline ← filePrefixEndsWithNewline rollouts current.rolloutPath current.snapshot.size
  pure (stats, digest, endsWithNewline)

def rebuildChunks (options : Options) (stats : DedupFileStats) :
    Scanner Digest DedupFileStats :=
  if layers.cdc then do
    deleteFileLayers ⟨false, false, true⟩
    let content ← openRollout rollouts current.rolloutPath
    let cdcStats ← scanDedupStream sha256 decoder isSyntaxError (dedupOptions ⟨false, false, true⟩ options)
      (content.take current.snapshot.size)
    point "close CDC rollout"
    pure { stats with cdcChunkCount := cdcStats.cdcChunkCount, cdcBytes := cdcStats.cdcBytes }
  else pure stats

def scanAppendedFile (previous : ScannedFileState Digest) (layers : Layers)
    (options : Options) (prefixHasher : Bytes) : Scanner Digest (DedupFileStats × Digest × Bool) := do
  let content ← openRollout rollouts current.rolloutPath
  let tail := (content.drop previous.size).take (current.snapshot.size - previous.size)
  let tailStats ← scanDedupStream sha256 decoder isSyntaxError
    (dedupOptions ⟨layers.record, layers.field, false⟩ options) tail
  point "close appended rollout"
  let stats := { addFileStats previous.stats tailStats with scannedBytes := current.snapshot.size }
  let stats ← rebuildChunks sha256 decoder isSyntaxError rollouts current layers options stats
  point "context canceled"
  let digest := sha256 (prefixHasher ++ tail)
  verifyScannedPrefix sha256 rollouts current.rolloutPath current.snapshot.size digest
  let endsWithNewline ← filePrefixEndsWithNewline rollouts current.rolloutPath current.snapshot.size
  pure (stats, digest, endsWithNewline)

def saveAndCommit (scanned : DedupFileStats × Digest × Bool) : Scanner Digest Unit := do
  onFailure rollbackFile (saveFileState current.rolloutPath
    ⟨current.snapshot.size, current.snapshot.modTimeNanos, scanned.2.1, scanned.2.2, scanned.1⟩)
  commitFile
  point "stat rollout after scan"

def evaluateWhole (options : Options) (result : Result) :
    Scanner Digest Result := do
  beginFile current.rolloutPath
  let scanned ← onFailure rollbackFile do
    deleteFileLayers layers
    scanWholeFile sha256 decoder isSyntaxError rollouts current layers options
  saveAndCommit current scanned
  pure { result with
    sessionCount := result.sessionCount + 1
    processedBytes := result.processedBytes + current.snapshot.size }

def evaluateAppended (state : ScannedFileState Digest) (layers : Layers)
    (options : Options) (result : Result) : Scanner Digest Result := do
  ensure (decide (state.size < current.snapshot.size)) "rollout was rewritten or truncated"
  ensure state.endsWithNewline "rollout previously ended with a partial JSONL record"
  let prefixHasher ← hashFilePrefix rollouts current.rolloutPath state.size
  ensure (decide (sha256 prefixHasher = state.prefixSHA256)) "rollout prefix changed"
  beginFile current.rolloutPath
  let scanned ← onFailure rollbackFile
    (scanAppendedFile sha256 decoder isSyntaxError rollouts current state layers options prefixHasher)
  saveAndCommit current scanned
  pure { result with
    sessionCount := result.sessionCount + 1
    appendedSessionCount := result.appendedSessionCount + 1
    processedBytes := result.processedBytes + (current.snapshot.size - state.size) }

def evaluateCandidate (options : Options) (result : Result) (current : Candidate) :
    Scanner Digest Result := do
  point "context canceled"
  let state ← loadFileState current.rolloutPath
  match state with
  | none => evaluateWhole sha256 decoder isSyntaxError rollouts current layers options result
  | some state =>
    if options.incremental then
      if current.snapshot = ⟨state.size, state.modTimeNanos⟩ then
        pure { result with
          sessionCount := result.sessionCount + 1
          skippedSessionCount := result.skippedSessionCount + 1 }
      else evaluateAppended sha256 decoder isSyntaxError rollouts current state layers options result
    else evaluateWhole sha256 decoder isSyntaxError rollouts current layers options result

def pruneFiles (options : Options) (paths : List String) : Scanner Digest Unit :=
  if options.incremental && options.wholeCorpus then removeFilesNotIn paths else pure ()

def evaluate (given : Options) (paths : List String) : Scanner Digest Result := do
  let candidates := selectCandidates rollouts paths
  openDedupIndex
  -- the deferred Close does nothing once the index was closed
  let result ← onFailure closeDedupIndex do
    let options := normalizeScanOptions given
    ensureConfiguration (scanConfiguration options.layers options)
    let result ← foldEach (evaluateCandidate sha256 decoder isSyntaxError rollouts options.layers options)
      newResult candidates
    pruneFiles options (candidates.map Candidate.rolloutPath)
    point "query scan statistics"
    pure result
  closeDedupIndex
  pure result

end

/-! ## Reading the rollouts -/

def endsWithNewline (content : Bytes) : Bool :=
  content.isEmpty || decide (content.getLast? = some Fold.newline)

section
variable {Digest β : Type} {rollouts : Files String Rollout}
  {path : String} {rollout : Rollout} {P : DedupIndex Digest → Prop} {Q : β → DedupIndex Digest → Prop}
  {E : String → DedupIndex Digest → Prop} {C : DedupIndex Digest → Prop}

section

variable (h : rollouts.get path = some rollout)
include h

section

variable (he : ∀ e i, P i → E e i)
include he

theorem openRollout_completes (hc : ∀ i, P i → C i) {k : Bytes → Scanner Digest β}
    (hk : Completes P (k rollout.content) Q E C) : Completes P (openRollout rollouts path >>= k) Q E C := by
  unfold openRollout
  rw [h]
  refine .bind' (M := fun c i => P i ∧ c = rollout.content)
    (.point' (he _) hc (.pure' _ fun _ hi => ⟨hi, rfl⟩)) fun c => .given fun hcontent => ?_
  rwa [hcontent]

omit he in
theorem hashFilePrefix_completes {size : Nat} (hsize : size ≤ rollout.content.length) (he : ∀ e i, P i → E e i)
    (hc : ∀ i, P i → C i) {k : Bytes → Scanner Digest β} (hk : Completes P (k (rollout.content.take size)) Q E C) :
    Completes P (hashFilePrefix rollouts path size >>= k) Q E C := by
  refine .bind' (M := fun c i => P i ∧ c = rollout.content.take size)
    (openRollout_completes h he hc (.ensure' ?_ (.pure' _ fun _ hi => ⟨hi, rfl⟩)))
    fun c => .given fun hcontent => ?_
  · simp [hsize]
  · rwa [hcontent]

theorem verifyScannedPrefix_completes [DecidableEq Digest] {sha256 : Bytes → Digest} (hc : ∀ i, P i → C i)
    {k : Unit → Scanner Digest β} (hk : Completes P (k ()) Q E C) :
    Completes P (verifyScannedPrefix sha256 rollouts path rollout.content.length (sha256 rollout.content) >>= k)
      Q E C := by
  refine .bind' (hashFilePrefix_completes h (Nat.le_refl _) he hc ?_) fun _ => hk
  rw [take_length, decide_eq_true rfl]
  exact .pure' () fun _ hi => hi

theorem filePrefixEndsWithNewline_completes (hc : ∀ i, P i → C i) {k : Bool → Scanner Digest β}
    (hk : Completes P (k (endsWithNewline rollout.content)) Q E C) :
    Completes P (filePrefixEndsWithNewline rollouts path rollout.content.length >>= k) Q E C := by
  refine .bind' (M := fun b i => P i ∧ b = endsWithNewline rollout.content) ?_ fun b => .given fun hb => by rwa [hb]
  unfold filePrefixEndsWithNewline
  by_cases hnil : rollout.content = []
  · simp only [hnil, length_nil, if_true]
    exact .pure' _ fun _ hi => ⟨hi, rfl⟩
  · have hlast := getLast?_eq_getElem? (l := rollout.content)
    rw [if_neg (by simpa using hnil)]
    refine openRollout_completes h he hc ?_
    rw [← hlast]
    cases hget : rollout.content.getLast? with
    | none => exact absurd (getLast?_eq_none_iff.mp hget) hnil
    | some last =>
      refine .pure' _ fun _ hi => ⟨hi, ?_⟩
      simp [endsWithNewline, hnil, hget]

end

end

end

end CodexFold.Scan
