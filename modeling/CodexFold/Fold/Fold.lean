import CodexFold.Fold.Chunker
import CodexFold.Fold.Spans
import CodexFold.Fold.Store

/- Fold: a rollout becomes a manifest over content-addressed objects.

   The rollout is read in fragments of at most one buffer, assembled into lines,
   and each line is cut at its long JSON strings; what is between them runs
   through one chunker that spans lines. A line over the size limit goes to the
   chunker as it comes, and with a record index a duplicate line can become one
   object of its own. `fold` follows the source's control flow; the hashes
   (`sourceHash`, `reconstructionHash`) are kept as the bytes written to them. -/
namespace CodexFold.Fold
open Foundation List JsonRaw Cdc

structure FoldOptions (Digest : Type) where
  isOpaque : Bool
  manifestPathOverride : Option String
  apply : Bool
  overwrite : Bool
  removeSource : Bool
  allowActive : Bool
  fieldThreshold : Int
  maxJSONLineBytes : Int
  cdc : Options
  existingReader : Option (ObjectReader Digest)
  recordIndex : Option (Digest → Nat → Bool)
  recordThreshold : Int

structure Progress (Digest : Type) where
  store : ObjectStore Digest
  parts : List (Part Digest)
  source : Bytes
  reconstruction : Bytes
  fieldParts : Nat
  residualParts : Nat
  recordParts : Nat
  uniqueObjects : Nat
  reusedObjects : Nat
  newStoredBytes : Nat
  oversizedLines : Nat
  invalidJSONLines : Nat

structure FoldResult (Digest : Type) where
  sessionID : String
  sourcePath : String
  manifestPath : String
  sourceBytes : Nat
  sourceSHA256 : Digest
  progress : Progress Digest
  verified : Bool
  dryRun : Bool
  removedSource : Bool

structure PlannedPart where
  kind : PartKind
  path : String
  data : Bytes
  deriving DecidableEq, Repr

def maxInt64 : Nat := 2 ^ 63 - 1

def readBufferBytes : Nat := 1024 * 1024

def newline : UInt8 := 10

section
variable {Digest : Type}

def FoldOptions.withDefaults (options : FoldOptions Digest) : FoldOptions Digest :=
  let fieldThreshold := if options.fieldThreshold ≤ 0 then 4 * 1024 else options.fieldThreshold
  let cdc := if options.cdc.minBytes ≤ 0 then ⟨4 * 1024, 16 * 1024, 64 * 1024⟩ else options.cdc
  { options with
    fieldThreshold
    maxJSONLineBytes :=
      if options.maxJSONLineBytes ≤ 0 then 32 * 1024 * 1024 else options.maxJSONLineBytes
    cdc
    recordThreshold :=
      if options.recordThreshold ≤ 0 then max fieldThreshold cdc.minBytes else options.recordThreshold }

def FoldOptions.manifestPath (options : FoldOptions Digest) (session : Session) : String :=
  options.manifestPathOverride.getD (Fold.manifestPath session.id)

def FoldOptions.overrideInside (options : FoldOptions Digest) : Bool :=
  match options.manifestPathOverride with
  | none => true
  | some relative => !(decide (relative = "..") || "../".toList.isPrefixOf relative.toList)

def newProgress : Progress Digest :=
  ⟨newObjectStore, [], [], [], 0, 0, 0, 0, 0, 0, 0, 0⟩

def Progress.addPart (p : Progress Digest) (kind : PartKind) (path : String) (ref : ObjectRef Digest)
    (data : Bytes) (reused : Bool) : Progress Digest :=
  { p with
    parts := p.parts ++ [⟨kind, path, ref⟩]
    reconstruction := p.reconstruction ++ data
    fieldParts := if kind = .field then p.fieldParts + 1 else p.fieldParts
    recordParts := if kind = .record then p.recordParts + 1 else p.recordParts
    residualParts := if kind = .residual then p.residualParts + 1 else p.residualParts
    reusedObjects := if reused then p.reusedObjects + 1 else p.reusedObjects
    uniqueObjects := if reused then p.uniqueObjects else p.uniqueObjects + 1
    newStoredBytes := if reused then p.newStoredBytes else p.newStoredBytes + ref.storedBytes }

variable [DecidableEq Digest] (content : Content Digest) (decoder : Decoder)
  (options : FoldOptions Digest)

def existingHas (ref : ObjectRef Digest) : Bool :=
  options.existingReader.any (fun reader => reader.hasObject ref)

omit [DecidableEq Digest] in
theorem existingHas_iff {options : FoldOptions Digest} {ref : ObjectRef Digest} : existingHas options ref ↔
      ∃ reader, options.existingReader = some reader ∧ reader.hasObject ref = true := by
  unfold existingHas
  cases options.existingReader <;> simp

def appendPart (kind : PartKind) (path : String) (p : Progress Digest) (data : Bytes) :
    Prog (Store Digest) String (Progress Digest) :=
  if data = [] then pure p
  else
    let ref : ObjectRef Digest := ⟨content.sha256 data, data.length, 0⟩
    if existingHas options ref then pure (p.addPart kind path ref data true)
    else do
      let (ref, reused, store) ← put content p.store data options.apply
      pure ({ p with store }.addPart kind path ref data reused)

def emitResidual : Progress Digest → Bytes → Prog (Store Digest) String (Progress Digest) :=
  appendPart content options .residual ""

/-! ## Records -/

def slice (line : Bytes) (start stop : Nat) : Bytes := (line.drop start).take (stop - start)

def collect (kind : PartKind) (path : String) (parts : List PlannedPart) (data : Bytes) :
    List PlannedPart :=
  parts ++ [⟨kind, path, data⟩]

def planFields (line : Bytes) : Chunker → List PlannedPart → Nat → List StringSpan →
    List PlannedPart
  | chunker, parts, cursor, [] =>
    let (chunker, parts) := (chunker.write (M := Id) (collect .residual "") parts (line.drop cursor))
    (chunker.finish (M := Id) (collect .residual "") parts).2
  | chunker, parts, cursor, span :: rest =>
    let (chunker, parts) :=
      chunker.write (M := Id) (collect .residual "") parts (slice line cursor span.start)
    let (chunker, parts) := chunker.finish (M := Id) (collect .residual "") parts
    planFields line chunker (collect .field span.path parts (slice line span.start span.stop)) span.stop rest

def planRecordComponents (line : Bytes) : Except String (List PlannedPart) :=
  match new options.cdc with
  | .error e => .error e
  | .ok chunker =>
    match findStringSpans decoder line options.fieldThreshold with
    | .error _ => .ok (planFields line chunker [] 0 [])
    | .ok spans => .ok (planFields line chunker [] 0 spans)

def hasStored (ref : ObjectRef Digest) : Prog (Store Digest) String Bool :=
  read (fun s => (looseReader content s.objects).hasObject ref || existingHas options ref)

def plannedStorageCost : ObjectStore Digest → Nat → List PlannedPart →
    Prog (Store Digest) String (Nat × ObjectStore Digest)
  | store, total, [] => pure (total, store)
  | store, total, part :: rest => do
    let (ref, _, store) ← put content store part.data false
    let reused ← hasStored content options ref
    if reused then plannedStorageCost store total rest
    else do
      ensure (decide (total + ref.storedBytes ≤ maxInt64)) "record component storage estimate overflow"
      plannedStorageCost store (total + ref.storedBytes) rest

variable (p : Progress Digest)

def promoteRecord (line : Bytes) :
    Prog (Store Digest) String (Bool × Progress Digest) := do
  let components ← ofExcept (planRecordComponents decoder options line)
  let (componentCost, store) ← plannedStorageCost content options p.store 0 components
  let (recordRef, _, store) ← put content store line false
  let recordReused ← hasStored content options recordRef
  let recordCost := if recordReused then 0 else recordRef.storedBytes
  let worthPromoting := recordReused || (decide (componentCost > 0) && decide (recordCost ≤ componentCost / 2))
  pure (decide (components.length > 1) && worthPromoting, { p with store })

def checkRecord (line : Bytes) :
    Prog (Store Digest) String (Bool × Progress Digest) :=
  match options.recordIndex with
  | none => pure (false, p)
  | some isDuplicateRecord =>
    if (line.length : Int) ≥ options.recordThreshold then do
      point "record index"
      if isDuplicateRecord (content.sha256 line) line.length then promoteRecord content decoder options p line
      else pure (false, p)
    else pure (false, p)

/-! ## Lines -/

def appendFields (line : Bytes) : Chunker → Progress Digest → Nat → List StringSpan →
    Prog (Store Digest) String (Chunker × Progress Digest)
  | chunker, p, cursor, [] => chunker.write (emitResidual content options) p (line.drop cursor)
  | chunker, p, cursor, span :: rest => do
    let (chunker, p) ← chunker.write (emitResidual content options) p (slice line cursor span.start)
    let (chunker, p) ← chunker.finish (emitResidual content options) p
    let p ← appendPart content options .field span.path p (slice line span.start span.stop)
    appendFields line chunker p span.stop rest

def processLine (chunker : Chunker) (p : Progress Digest) (line : Bytes) :
    Prog (Store Digest) String (Chunker × Progress Digest) := do
  let (promote, p) ← checkRecord content decoder options p line
  if promote then do
    let (chunker, p) ← chunker.finish (emitResidual content options) p
    let p ← appendPart content options .record "" p line
    pure (chunker, p)
  else
    match findStringSpans decoder line options.fieldThreshold with
    | .error _ =>
      chunker.write (emitResidual content options) { p with invalidJSONLines := p.invalidJSONLines + 1 } line
    | .ok spans => appendFields content options line chunker p 0 spans

inductive ReadStatus where
  | delim
  | bufferFull
  | eof
  deriving DecidableEq, Repr

/-- `bufio.Reader.ReadSlice`: up to and including the delimiter, or a full buffer,
    or what is left. -/
def readSlice (rest : Bytes) : Bytes × ReadStatus × Bytes :=
  match indexByte newline (rest.take readBufferBytes) with
  | some index => (rest.take (index + 1), .delim, rest.drop (index + 1))
  | none =>
    if rest.length ≥ readBufferBytes then (rest.take readBufferBytes, .bufferFull, rest.drop readBufferBytes)
    else (rest, .eof, [])

theorem readSlice_cases (rest : Bytes) : (∃ line rest', readSlice rest = (line ++ [newline], .delim, rest') ∧
      newline ∉ line ∧ rest = line ++ newline :: rest') ∨
    (∃ fragment rest', readSlice rest = (fragment, .bufferFull, rest') ∧
      newline ∉ fragment ∧ fragment ≠ [] ∧ rest = fragment ++ rest') ∨
    (readSlice rest = (rest, .eof, []) ∧ newline ∉ rest) := by
  unfold readSlice
  cases hindex : indexByte newline (rest.take readBufferBytes) with
  | some index =>
    left
    obtain ⟨hfound, hout⟩ := indexByte_some hindex
    -- the newline lies inside the buffer, so cutting the buffer cuts the file
    obtain ⟨hlen, -⟩ := List.getElem?_eq_some_iff.mp hfound
    rw [length_take] at hlen
    have hle : index < readBufferBytes := by omega
    have hlt : index < rest.length := by omega
    rw [getElem?_take_of_lt hle, getElem?_eq_getElem hlt] at hfound
    have hget : rest[index] = newline := Option.some.inj hfound
    rw [take_take, Nat.min_eq_left (Nat.le_of_lt hle)] at hout
    refine ⟨rest.take index, rest.drop (index + 1), ?_, hout, ?_⟩
    · show (rest.take (index + 1), _, _) = _
      rw [take_succ_eq_append_getElem hlt, hget]
    · rw [← hget, ← drop_eq_getElem_cons hlt, take_append_drop]
  | none =>
    right
    have hout := indexByte_none hindex
    by_cases hfull : rest.length ≥ readBufferBytes
    · left
      refine ⟨rest.take readBufferBytes, rest.drop readBufferBytes, ?_, hout, ?_, ?_⟩
      · simp only [hfull, if_true]
      · intro hnil
        have := congrArg length hnil
        have hpos : 0 < readBufferBytes := by decide
        simp only [length_take, length_nil] at this
        omega
      · exact (take_append_drop _ _).symm
    · right
      rw [take_of_length_le (by omega)] at hout
      exact ⟨by simp only [hfull, if_false], hout⟩

structure Assembly (Digest : Type) where
  chunker : Chunker
  progress : Progress Digest
  line : Bytes
  oversized : Bool

variable (a : Assembly Digest)

def takeFragment (fragment : Bytes) :
    Prog (Store Digest) String (Assembly Digest) :=
  let p := { a.progress with source := a.progress.source ++ fragment }
  if fragment = [] then pure a
  else if a.oversized then do
    let (chunker, p) ← a.chunker.write (emitResidual content options) p fragment
    pure { a with chunker, progress := p }
  else if ((a.line.length + fragment.length : Nat) : Int) > options.maxJSONLineBytes then do
    let p := { p with oversizedLines := p.oversizedLines + 1 }
    let (chunker, p) ← a.chunker.write (emitResidual content options) p a.line
    let (chunker, p) ← chunker.write (emitResidual content options) p fragment
    pure { chunker, progress := p, line := [], oversized := true }
  else pure { a with progress := p, line := a.line ++ fragment }

def finishLine : Prog (Store Digest) String (Assembly Digest) := do
  if a.oversized then pure { a with line := [], oversized := options.isOpaque }
  else do
    let (chunker, p) ← processLine content decoder options a.chunker a.progress a.line
    pure { chunker, progress := p, line := [], oversized := options.isOpaque }

def finishInput : Prog (Store Digest) String (Assembly Digest) :=
  if a.oversized || a.line = [] then pure a else finishLine content decoder options a

def segment : Nat → Assembly Digest → Bytes → Prog (Store Digest) String (Progress Digest)
  | 0, _, _ => throw "out of fuel"
  | fuel + 1, a, rest => do
    point "context canceled"
    let (fragment, status, rest) := readSlice rest
    let a ← takeFragment content options a fragment
    match status with
    | .delim => do
      let a ← finishLine content decoder options a
      segment fuel a rest
    | .bufferFull => segment fuel a rest
    | .eof => do
      let a ← finishInput content decoder options a
      let (_, p) ← a.chunker.finish (emitResidual content options) a.progress
      pure p

/-! ## The whole Fold -/

def checkOptions (given : FoldOptions Digest) (session : Session) (s : Store Digest) : Except String Unit :=
  if given.removeSource && !given.apply then .error "--remove-source requires --apply"
  else if given.removeSource && !session.archived && !given.allowActive then
    .error "refusing to remove a non-archived rollout without --allow-active"
  else if !given.overrideInside then
    .error "manifest override must remain inside the fold manifest directory"
  else if given.apply && !given.overwrite && (s.manifests.get (given.manifestPath session)).isSome then
    .error s!"fold manifest already exists: {given.manifestPath session}"
  else .ok ()

/-- `verifyCurrentSource`: the rollout still has the bytes that were folded. -/
def verifyCurrentSource (path : String) (source : ManifestSource Digest) :
    Prog (Store Digest) String Unit := do
  let rollout ← read (fun s => s.rollouts.get path)
  match rollout with
  | none => throw "reopen rollout for commit verification"
  | some data => ofExcept (verifySourceDigest content data source)

variable (session : Session)

def buildManifest (p : Progress Digest) : Manifest Digest where
  kind := if options.recordIndex.isSome then .foldV2 else .foldV1
  session := session
  source := ⟨p.source.length, content.sha256 p.source⟩
  settings :=
    { fieldThreshold := options.fieldThreshold
      maxJSONLineBytes := options.maxJSONLineBytes
      cdcMinBytes := options.cdc.minBytes
      cdcAverageBytes := options.cdc.averageBytes
      cdcMaxBytes := options.cdc.maxBytes
      recordThreshold := options.recordThreshold }
  parts := p.parts

def segmentationVerified : Bool :=
  decide (p.reconstruction.length = p.source.length) &&
    decide (content.sha256 p.reconstruction = content.sha256 p.source)

def commitManifest (path : String) (manifest : Manifest Digest) (store : ObjectStore Digest) :
    Prog (Store Digest) String Unit := do
  let objects ← read (fun s => s.objects)
  ofExcept (verifyStoredManifest content (objectReader content objects options.existingReader) manifest)
  syncPending store
  writeManifestPath path manifest options.overwrite

def completeFold (path : String) (p : Progress Digest) :
    Prog (Store Digest) String (FoldResult Digest) := do
  let manifest := buildManifest content options session p
  let result : FoldResult Digest :=
    { sessionID := session.id, sourcePath := session.rolloutPath, manifestPath := path
      sourceBytes := p.source.length, sourceSHA256 := content.sha256 p.source, progress := p
      verified := true, dryRun := !options.apply, removedSource := false }
  ensure (segmentationVerified content p) "fold segmentation verification failed"
  point "before fold commit"
  verifyCurrentSource content session.rolloutPath manifest.source
  if !options.apply then pure result
  else do
    commitManifest content options path manifest p.store
    if options.removeSource then do
      effect "remove verified rollout source"
        (fun s => { s with rollouts := s.rollouts.erase session.rolloutPath })
      pure { result with removedSource := true }
    else pure result

/-- `Fold`. The budget check and the store lock are steps that can refuse. -/
def fold (given : FoldOptions Digest) :
    Prog (Store Digest) String (FoldResult Digest) := do
  let checked ← read (fun s => checkOptions given session s)
  ofExcept checked
  let options := given.withDefaults
  let rollout ← read (fun s => s.rollouts.get session.rolloutPath)
  match rollout with
  | none => throw "open rollout"
  | some source => do
    point "storage budget"
    point "objects lock"
    let chunker ← ofExcept (new options.cdc)
    let p ← segment content decoder options (source.length + 1)
      { chunker, progress := newProgress, line := [], oversized := options.isOpaque } source
    completeFold content options session (given.manifestPath session) p

end

end CodexFold.Fold
