import CodexFold.Fold.Fold
import CodexFold.Fold.Grammar
import CodexFold.Foundation.Lines
import CodexFold.Scan.Index

/- One pass over a rollout (`internal/scan/jsonl.go`).

   `scanDedupStream` reads the rollout in fragments of at most one buffer. A fragment goes
   to the chunker at once and to the record under assembly, which is observed when its
   newline, or the end of the rollout, has been read: the whole record, and its long JSON
   strings unless it is too long to be kept.

   What the pass finds depends on the content alone, not on the fragments:
   `scanDedupStream_completes` says which objects it adds to the index and which
   statistics it returns, in terms of the lines of the content and of its chunks. -/
namespace CodexFold.Scan
open Foundation List Function JsonRaw Cdc

def defaultDedupMinFieldBytes : Int := 4 * 1024
def defaultDedupMaxJSONLineBytes : Int := 32 * 1024 * 1024

structure DedupScanOptions where
  layers : Layers
  minFieldBytes : Int
  maxJSONLineBytes : Int
  cdc : Options
  deriving DecidableEq, Repr

variable (options : DedupScanOptions)

def DedupScanOptions.withDefaults : DedupScanOptions :=
  { options with
    minFieldBytes := if options.minFieldBytes ≤ 0 then defaultDedupMinFieldBytes else options.minFieldBytes
    maxJSONLineBytes :=
      if options.maxJSONLineBytes ≤ 0 then defaultDedupMaxJSONLineBytes else options.maxJSONLineBytes }

structure RecordScan where
  hashed : Bytes
  captured : Bytes
  captureEnabled : Bool
  oversized : Bool
  recordBytes : Nat
  hasData : Bool
  deriving DecidableEq, Repr

structure StreamScan where
  stats : DedupFileStats
  chunker : Option Chunker
  record : RecordScan

def newStats : DedupFileStats := ⟨0, 0, 0, 0, 0, 0, 0, 0, 0⟩

def newRecord : RecordScan :=
  ⟨[], [], options.layers.field, false, 0, false⟩

def RecordScan.take (r : RecordScan) (fragment : Bytes) : RecordScan :=
  let recordBytes := r.recordBytes + fragment.length
  let fits := decide ((recordBytes : Int) ≤ options.maxJSONLineBytes)
  { hashed := if options.layers.record then r.hashed ++ fragment else r.hashed
    captured := if r.captureEnabled then (if fits then r.captured ++ fragment else []) else r.captured
    captureEnabled := r.captureEnabled && fits
    oversized := r.oversized || (r.captureEnabled && !fits)
    recordBytes := recordBytes
    hasData := true }

section
variable {Digest : Type} [DecidableEq Digest] (sha256 : Bytes → Digest) (decoder : Decoder)
  (isSyntaxError : String → Bool)

/-- `isSyntaxError` stands for a `json.SyntaxError` or an unexpected end. -/
def isDedupJSONParseError (e : String) : Bool :=
  isSyntaxError e || decide (e = "EOF") || decide (e = "multiple JSON values in one record")

def observeChunk (stats : DedupFileStats) (data : Bytes) : Scanner Digest DedupFileStats := do
  observe .cdc (sha256 data) data.length
  pure { stats with cdcChunkCount := stats.cdcChunkCount + 1, cdcBytes := stats.cdcBytes + data.length }

def observeSpan (data : Bytes) (stats : DedupFileStats) (span : StringSpan) :
    Scanner Digest DedupFileStats := do
  let rawToken := Fold.slice data span.start span.stop
  observeAt .field (sha256 rawToken) rawToken.length span.path
  pure { stats with fieldCount := stats.fieldCount + 1, fieldBytes := stats.fieldBytes + rawToken.length }

/-- The error of `FindStringSpans` is handed to the caller; one of the index is not a
    parse error and ends the scan. -/
def observeLargeJSONStrings (data : Bytes) (minBytes : Int) (stats : DedupFileStats) :
    Scanner Digest (Except String DedupFileStats) :=
  match findStringSpans decoder data minBytes with
  | .error e => pure (.error e)
  | .ok spans => do
    let stats ← foldEach (observeSpan sha256 data) stats spans
    pure (.ok stats)

variable (options : DedupScanOptions) (record : RecordScan)

def observeRecord : Scanner Digest Unit :=
  if options.layers.record then observe .record (sha256 record.hashed) record.recordBytes else pure ()

def observeFields (stats : DedupFileStats) :
    Scanner Digest DedupFileStats :=
  if options.layers.field then
    if record.oversized then pure { stats with oversizedRecordCount := stats.oversizedRecordCount + 1 }
    else do
      let found ← observeLargeJSONStrings sha256 decoder record.captured options.minFieldBytes stats
      match found with
      | .ok stats => pure { stats with parsedRecordCount := stats.parsedRecordCount + 1 }
      | .error e =>
        if isDedupJSONParseError isSyntaxError e then
          pure { stats with invalidJSONRecordCount := stats.invalidJSONRecordCount + 1 }
        else throw e
  else pure stats

def finishRecord (stats : DedupFileStats) :
    Scanner Digest DedupFileStats := do
  observeRecord sha256 options record
  observeFields sha256 decoder isSyntaxError options record { stats with recordCount := stats.recordCount + 1 }

def takeFragment (a : StreamScan) (fragment : Bytes) :
    Scanner Digest StreamScan :=
  if fragment = [] then pure a
  else
    let record := a.record.take options fragment
    match a.chunker with
    | none => pure ⟨{ a.stats with scannedBytes := a.stats.scannedBytes + fragment.length }, none, record⟩
    | some chunker => do
      let (chunker, stats) ← chunker.write (observeChunk sha256) a.stats fragment
      pure ⟨{ stats with scannedBytes := stats.scannedBytes + fragment.length }, some chunker, record⟩

def scanRecords (options : DedupScanOptions) : Nat → StreamScan → Bytes → Scanner Digest StreamScan
  | 0, _, _ => throw "out of fuel"
  | fuel + 1, a, rest => do
    point "read dedup JSONL record"
    let (fragment, status, rest) := Fold.readSlice rest
    let a ← takeFragment sha256 options a fragment
    match status with
    | .bufferFull => scanRecords options fuel a rest
    | .delim =>
      if a.record.hasData then do
        let stats ← finishRecord sha256 decoder isSyntaxError options a.record a.stats
        scanRecords options fuel ⟨stats, a.chunker, newRecord options⟩ rest
      else pure a
    | .eof =>
      if a.record.hasData then do
        let stats ← finishRecord sha256 decoder isSyntaxError options a.record a.stats
        pure ⟨stats, a.chunker, a.record⟩
      else pure a

def newChunker : Except String (Option Chunker) :=
  if options.layers.cdc then (new options.cdc).map some else .ok none

def finishChunks (a : StreamScan) : Scanner Digest DedupFileStats :=
  match a.chunker with
  | none => pure a.stats
  | some chunker => do
    let (_, stats) ← chunker.finish (observeChunk sha256) a.stats
    pure stats

def scanDedupStream (given : DedupScanOptions) (content : Bytes) : Scanner Digest DedupFileStats := do
  let options := given.withDefaults
  let chunker ← ofExcept (newChunker options)
  let a ← scanRecords sha256 decoder isSyntaxError options (content.length + 1)
    ⟨newStats, chunker, newRecord options⟩ content
  finishChunks sha256 a

end

/-! ## What a pass finds -/

def chunked (start : Option Chunker) (data : Bytes) : Option Chunker × List Bytes :=
  match start with
  | none => (none, [])
  | some c =>
    let r := c.write (M := Id) (fun chunks chunk => chunks ++ [chunk]) [] data
    (some r.1, r.2)

def chunksOf (start : Option Chunker) (data : Bytes) : List Bytes :=
  match chunked start data with
  | (none, chunks) => chunks
  | (some c, chunks) => (c.finish (M := Id) (fun chunks chunk => chunks ++ [chunk]) chunks).2

section
variable {Digest : Type} (sha256 : Bytes → Digest) (decoder : Decoder) (options : DedupScanOptions)

def object (data : Bytes) : Digest × Nat := (sha256 data, data.length)

variable (line : Bytes)

def tooLong : Bool := decide (options.maxJSONLineBytes < (line.length : Int))

def strings : Option (List Bytes) :=
  if tooLong options line then none
  else
    match findStringSpans decoder line options.minFieldBytes with
    | .error _ => none
    | .ok spans => some (spans.map fun span => Fold.slice line span.start span.stop)

def fields : List Bytes :=
  if options.layers.field then (strings decoder options line).getD [] else []

def seenIn (lines chunks : List Bytes) : Seen Digest
  | .record => if options.layers.record then lines.map (object sha256) else []
  | .field => (lines.flatMap (fields decoder options)).map (object sha256)
  | .cdc => chunks.map (object sha256)

def statsOf (bytes : Nat) (lines chunks : List Bytes) : DedupFileStats where
  scannedBytes := bytes
  recordCount := lines.length
  parsedRecordCount :=
    if options.layers.field then lines.countP fun line => (strings decoder options line).isSome else 0
  oversizedRecordCount := if options.layers.field then lines.countP (tooLong options) else 0
  invalidJSONRecordCount :=
    if options.layers.field then
      lines.countP fun line => !tooLong options line && (strings decoder options line).isNone
    else 0
  fieldCount := (lines.flatMap (fields decoder options)).length
  fieldBytes := ((lines.flatMap (fields decoder options)).map length).sum
  cdcChunkCount := chunks.length
  cdcBytes := (chunks.map length).sum

end

def RecordScan.of (options : DedupScanOptions) (part : Bytes) : RecordScan where
  hashed := if options.layers.record then part else []
  captured := if options.layers.field && !tooLong options part then part else []
  captureEnabled := options.layers.field && !tooLong options part
  oversized := options.layers.field && tooLong options part
  recordBytes := part.length
  hasData := !part.isEmpty

theorem chunked_append (start : Option Chunker) (first second : Bytes) :
    chunked start (first ++ second) =
      match (chunked start first).1 with
      | none => chunked start first
      | some c =>
        let r := c.write (M := Id) (fun chunks chunk => chunks ++ [chunk]) (chunked start first).2 second
        (some r.1, r.2) := by
  cases start with
  | none => rfl
  | some c =>
    simp only [chunked]
    rw [Chunker.write_append]

theorem newRecord_eq {options : DedupScanOptions} (h : 0 ≤ options.maxJSONLineBytes) :
    newRecord options = RecordScan.of options [] := by
  have hshort : tooLong options [] = false := by
    simp only [tooLong, length_nil, decide_eq_false_iff_not]
    omega
  simp [newRecord, RecordScan.of, hshort]

theorem tooLong_append {options : DedupScanOptions} {part : Bytes} (fragment : Bytes)
    (h : tooLong options part) : tooLong options (part ++ fragment) = true := by
  simp only [tooLong, decide_eq_true_eq, length_append] at h ⊢
  omega

theorem RecordScan.take_of (options : DedupScanOptions) (part : Bytes) {fragment : Bytes} (hne : fragment ≠ []) :
    (RecordScan.of options part).take options fragment = RecordScan.of options (part ++ fragment) := by
  have hdata : (part ++ fragment).isEmpty = false := by simp [hne]
  have hfits : decide ((((RecordScan.of options part).recordBytes + fragment.length : Nat) : Int) ≤
      options.maxJSONLineBytes) = !tooLong options (part ++ fragment) := by
    simp only [RecordScan.of, tooLong, length_append, ← decide_not, Int.not_lt]
  unfold RecordScan.take
  dsimp only
  rw [hfits]
  simp only [RecordScan.of, hdata, length_append]
  by_cases hfield : options.layers.field = true
  · by_cases hpart : tooLong options part = true
    · have hboth := tooLong_append fragment hpart
      by_cases hrec : options.layers.record = true <;> simp [hfield, hpart, hboth, hrec]
    · by_cases hboth : tooLong options (part ++ fragment) = true <;>
        by_cases hrec : options.layers.record = true <;> simp [hfield, hpart, hboth, hrec]
  · by_cases hrec : options.layers.record = true <;> simp [hfield, hrec]

/-! ## The pass finds it -/

section
variable {Digest : Type} [DecidableEq Digest] {sha256 : Bytes → Digest} {decoder : Decoder}
  {isSyntaxError : String → Bool} {options : DedupScanOptions} {base : Tables Digest} {file : String}
  {seen : Seen Digest} {state : Option (ScannedFileState Digest)}

variable (sha256 decoder options base file seen state) in
abbrev Found (lines chunks : List Bytes) : DedupIndex Digest → Prop :=
  Scanning base file (fun layer => seen layer ++ seenIn sha256 decoder options lines chunks layer) state

theorem observeChunk_completes (bytes : Nat) (lines : List Bytes) (stats : DedupFileStats) (chunks : List Bytes)
    (data : Bytes) : CompletesOr (fun i => Found sha256 decoder options base file seen state lines chunks i ∧ stats = statsOf decoder options bytes lines chunks) (observeChunk sha256 stats data)
      (fun stats' i => Found sha256 decoder options base file seen state lines (chunks ++ [data]) i ∧ stats' = statsOf decoder options bytes lines (chunks ++ [data])) (Holds base) := by
  refine .given fun hstats => ?_
  refine .bind' (observeAt_completes .cdc (sha256 data) data.length "") fun _ => ?_
  refine .pure' _ fun i hi => ⟨?_, ?_⟩
  · have hseen : update (fun layer => seen layer ++ seenIn sha256 decoder options lines chunks layer) .cdc
        (seen .cdc ++ seenIn sha256 decoder options lines chunks .cdc ++ [(sha256 data, data.length)]) =
        fun layer => seen layer ++ seenIn sha256 decoder options lines (chunks ++ [data]) layer := by
      funext layer
      cases layer <;> simp [seenIn, object]
    rw [hseen] at hi
    exact hi
  · subst hstats
    simp [statsOf]

variable (sha256 decoder options base file seen state)

structure Passed (start : Option Chunker) (lines : List Bytes) (data : Bytes) (a : StreamScan)
    (i : DedupIndex Digest) : Prop where
  index : Found sha256 decoder options base file seen state lines (chunked start data).2 i
  stats : a.stats = statsOf decoder options data.length lines (chunked start data).2
  chunker : a.chunker = (chunked start data).1

structure Reading (start : Option Chunker) (lines : List Bytes) (part : Bytes) (a : StreamScan)
    (i : DedupIndex Digest) : Prop extends Passed sha256 decoder options base file seen state start lines (lines.flatten ++ part) a i where
  record : a.record = RecordScan.of options part

variable {sha256 decoder options base file seen state} {start : Option Chunker}

theorem takeFragment_completes (lines : List Bytes) (part : Bytes) (a : StreamScan) (fragment : Bytes) :
    CompletesOr (Reading sha256 decoder options base file seen state start lines part a) (takeFragment sha256 options a fragment)
      (fun a' => Reading sha256 decoder options base file seen state start lines (part ++ fragment) a') (Holds base) := by
  unfold takeFragment
  by_cases hne : fragment = []
  · rw [if_pos hne]
    exact .pure' a fun i hi => by rwa [hne, append_nil]
  · rw [if_neg hne]
    refine .at' fun i hi => ?_
    obtain ⟨⟨hindex, hstats, hchunker⟩, hrecord⟩ := hi
    have hrecord' : a.record.take options fragment = RecordScan.of options (part ++ fragment) := by
      rw [hrecord, RecordScan.take_of options part hne]
    have hmore := chunked_append start (lines.flatten ++ part) fragment
    rw [append_assoc] at hmore
    rw [← hchunker] at hmore
    cases hc : a.chunker with
    | none =>
      rw [hc] at hmore hchunker
      refine .pure' _ fun j hj => ?_
      subst hj
      refine ⟨⟨?_, ?_, ?_⟩, hrecord'⟩
      · rw [hmore]
        exact hindex
      · rw [hmore, hstats]
        simp [statsOf, Nat.add_assoc]
      · rw [hmore]
        exact hchunker
    | some c =>
      rw [hc] at hmore
      have hpre : ∀ j, j = i →
          Found sha256 decoder options base file seen state lines (chunked start (lines.flatten ++ part)).2 j ∧
          a.stats = statsOf decoder options (lines.flatten ++ part).length lines
            (chunked start (lines.flatten ++ part)).2 := by
        intro j hj
        subst hj
        exact ⟨hindex, hstats⟩
      refine .bind' ((Chunker.write_completes
        (observeChunk_completes (lines.flatten ++ part).length lines) fragment c a.stats _).pre hpre) ?_
      rintro ⟨c', stats'⟩
      refine .pure' _ fun j hj => ?_
      obtain ⟨m', hpair, hindex', hstats'⟩ := hj
      cases hpair
      refine ⟨⟨?_, ?_, ?_⟩, hrecord'⟩
      · rw [hmore]
        exact hindex'
      · rw [hmore, hstats']
        simp [statsOf, Nat.add_assoc]
      · rw [hmore]

def cutSpans (data : Bytes) (spans : List StringSpan) : List Bytes :=
  spans.map fun span => Fold.slice data span.start span.stop

def addField (stats : DedupFileStats) (token : Bytes) : DedupFileStats :=
  { stats with fieldCount := stats.fieldCount + 1, fieldBytes := stats.fieldBytes + token.length }

theorem observeSpan_completes (data : Bytes) (span : StringSpan) (stats : DedupFileStats) :
    CompletesOr (Scanning base file seen state) (observeSpan sha256 data stats span)
      (fun stats' i => Scanning base file (update seen .field (seen .field ++ [object sha256 (Fold.slice data span.start span.stop)])) state i ∧ stats' = addField stats (Fold.slice data span.start span.stop)) (Holds base) :=
  .bind' (observeAt_completes .field _ _ span.path) fun _ => .pure' _ fun _ hi => ⟨hi, rfl⟩

theorem observeSpans_completes (data : Bytes) : ∀ (spans : List StringSpan) (seen : Seen Digest)
    (stats : DedupFileStats),
    CompletesOr (Scanning base file seen state) (foldEach (observeSpan sha256 data) stats spans)
      (fun stats' i => Scanning base file (update seen .field (seen .field ++ (cutSpans data spans).map (object sha256))) state i ∧ stats' = (cutSpans data spans).foldl addField stats) (Holds base)
  | [], seen, stats => .pure' stats fun i hi => by simpa [cutSpans] using hi
  | span :: rest, seen, stats => by
    refine .bind' (observeSpan_completes data span stats) fun stats' => .given fun hstats => ?_
    subst hstats
    refine (observeSpans_completes data rest _ _).weaken fun _ _ h => ⟨?_, h.2⟩
    have hseen := h.1
    rwa [update_idem, update_self, append_assoc] at hseen

theorem foldl_addField (tokens : List Bytes) : ∀ stats : DedupFileStats, tokens.foldl addField stats =
    { stats with
      fieldCount := stats.fieldCount + tokens.length
      fieldBytes := stats.fieldBytes + (tokens.map List.length).sum } := by
  induction tokens with
  | nil => intro stats; rfl
  | cons token rest ih =>
    intro stats
    rw [foldl_cons, ih]
    simp [addField, Nat.add_assoc, Nat.add_comm 1]

def addRecord (decoder : Decoder) (options : DedupScanOptions) (line : Bytes) (stats : DedupFileStats) :
    DedupFileStats :=
  if options.layers.field then
    if tooLong options line then { stats with oversizedRecordCount := stats.oversizedRecordCount + 1 }
    else
      match strings decoder options line with
      | some found =>
        let stats := found.foldl addField stats
        { stats with parsedRecordCount := stats.parsedRecordCount + 1 }
      | none => { stats with invalidJSONRecordCount := stats.invalidJSONRecordCount + 1 }
  else stats

theorem statsOf_line (bytes : Nat) (lines chunks : List Bytes) (line : Bytes) :
    statsOf decoder options bytes (lines ++ [line]) chunks =
      addRecord decoder options line
        { statsOf decoder options bytes lines chunks with recordCount := lines.length + 1 } := by
  unfold addRecord
  by_cases hfield : options.layers.field = true
  · by_cases hlong : tooLong options line = true
    · simp [statsOf, hfield, hlong, fields, strings]
    · cases hstrings : strings decoder options line with
      | none => simp [statsOf, hfield, hlong, hstrings, fields]
      | some found => simp [statsOf, hfield, hlong, hstrings, fields, foldl_addField]
  · simp [statsOf, hfield, fields]

omit [DecidableEq Digest] in
theorem seen_line (seen : Seen Digest) (lines chunks : List Bytes) (line : Bytes) {f f' : Seen Digest}
    (hf : f = fun layer => seen layer ++ seenIn sha256 decoder options lines chunks layer)
    (hf' : f' = update f .record (f .record ++ if options.layers.record then [object sha256 line] else [])) :
    (fun layer => seen layer ++ seenIn sha256 decoder options (lines ++ [line]) chunks layer) =
      update f' .field (f' .field ++ (fields decoder options line).map (object sha256)) := by
  subst hf hf'
  funext layer
  cases layer with
  | record => by_cases hrec : options.layers.record = true <;> simp [seenIn, hrec]
  | field | cdc => simp [seenIn]

theorem observeRecord_completes (line : Bytes) :
    CompletesOr (Scanning base file seen state) (observeRecord sha256 options (RecordScan.of options line))
      (fun _ => Scanning base file (update seen .record (seen .record ++ if options.layers.record then [object sha256 line] else [])) state) (Holds base) := by
  unfold observeRecord
  by_cases hrec : options.layers.record = true
  · simp only [hrec, if_true, RecordScan.of]
    exact observeAt_completes .record (sha256 line) line.length ""
  · simp only [hrec]
    exact .pure' () fun i hi => by simpa using hi

section

variable (g : Grammar decoder isSyntaxError)
include g

theorem observeFields_completes (line : Bytes) (stats : DedupFileStats) : CompletesOr (Scanning base file seen state) (observeFields sha256 decoder isSyntaxError options (RecordScan.of options line) stats)
      (fun stats' i => Scanning base file (update seen .field (seen .field ++ (fields decoder options line).map (object sha256))) state i ∧ stats' = addRecord decoder options line stats) (Holds base) := by
  unfold observeFields
  by_cases hfield : options.layers.field = true
  · by_cases hlong : tooLong options line = true
    · -- too long: counted, and not looked at
      have hnone : fields decoder options line = [] := by simp [fields, strings, hlong]
      simp only [RecordScan.of, addRecord, hfield, hlong, Bool.and_true, if_true, hnone]
      exact .pure' _ fun i hi => ⟨by simpa using hi, rfl⟩
    · have hkept : (RecordScan.of options line).captured = line := by simp [RecordScan.of, hfield, hlong]
      have hshort : (RecordScan.of options line).oversized = false := by simp [RecordScan.of, hlong]
      rw [if_pos hfield, hshort, hkept]
      unfold observeLargeJSONStrings
      cases hspans : findStringSpans decoder line options.minFieldBytes with
      | error e =>
        -- the decoder refuses the record
        have hparse : isDedupJSONParseError isSyntaxError e := by
          rcases findStringSpans_error g hspans with h | h | h <;> simp [isDedupJSONParseError, h]
        have hnone : fields decoder options line = [] := by simp [fields, strings, hspans]
        have hadd : addRecord decoder options line stats =
            { stats with invalidJSONRecordCount := stats.invalidJSONRecordCount + 1 } := by
          simp [addRecord, strings, hfield, hlong, hspans]
        rw [hnone, hadd]
        refine .bind' (.pure' _ fun _ hi => ⟨hi, rfl⟩) fun r => .given fun hr => ?_
        subst hr
        show Completes _ (if _ then _ else _) _ _ _
        rw [if_pos hparse]
        exact .pure' _ fun i hi => ⟨by simpa using hi, rfl⟩
      | ok spans =>
        have hsome : fields decoder options line = cutSpans line spans := by
          simp [fields, strings, hfield, hlong, hspans, cutSpans]
        have hadd : addRecord decoder options line stats =
            let stats := (cutSpans line spans).foldl addField stats
            { stats with parsedRecordCount := stats.parsedRecordCount + 1 } := by
          simp [addRecord, strings, hfield, hlong, hspans, cutSpans]
        rw [hsome, hadd]
        refine .bind' (.bind' (observeSpans_completes line spans seen stats) fun stats' =>
          .given fun hstats => .pure' _ fun i hi => ⟨hi, by rw [hstats]⟩)
          fun r => .given fun hr => ?_
        subst hr
        exact .pure' _ fun i hi => ⟨hi, rfl⟩
  · have hnone : fields decoder options line = [] := by simp [fields, hfield]
    simp only [addRecord, hfield, hnone]
    exact .pure' _ fun i hi => ⟨by simpa using hi, rfl⟩

theorem finishRecord_completes (bytes : Nat) (lines chunks : List Bytes) (line : Bytes) :
    CompletesOr (Found sha256 decoder options base file seen state lines chunks) (finishRecord sha256 decoder isSyntaxError options (RecordScan.of options line) (statsOf decoder options bytes lines chunks))
      (fun stats i => Found sha256 decoder options base file seen state (lines ++ [line]) chunks i ∧ stats = statsOf decoder options bytes (lines ++ [line]) chunks) (Holds base) := by
  unfold Found
  rw [seen_line seen lines chunks line rfl rfl, statsOf_line]
  exact .bind' (observeRecord_completes line) fun _ => observeFields_completes g line _

theorem completeRecord_completes (lines : List Bytes) (line : Bytes) (a : StreamScan) :
    CompletesOr (Reading sha256 decoder options base file seen state start lines line a) (finishRecord sha256 decoder isSyntaxError options a.record a.stats)
      (fun stats => Passed sha256 decoder options base file seen state start (lines ++ [line]) (lines.flatten ++ line) ⟨stats, a.chunker, a.record⟩) (Holds base) := by
  refine .at' fun i hi => ?_
  rw [hi.record, hi.stats]
  refine ((finishRecord_completes g _ lines _ line).pre (held hi.index)).weaken ?_
  rintro stats j ⟨hindex, hstats⟩
  exact ⟨hindex, hstats, hi.chunker⟩

end

/-- The loops read every line that is left. The induction is on the fuel, of which one
    more than the bytes left is enough. -/
theorem scanRecords_completes (g : Grammar decoder isSyntaxError) (hmax : 0 ≤ options.maxJSONLineBytes) :
    ∀ (fuel : Nat) (lines : List Bytes) (part : Bytes) (a : StreamScan) (rest : Bytes), rest.length < fuel →
    Fold.newline ∉ part → CompletesOr (Reading sha256 decoder options base file seen state start lines part a) (scanRecords sha256 decoder isSyntaxError options fuel a rest) (Passed sha256 decoder options base file seen state start (lines ++ cutAfter Fold.newline (part ++ rest)) (lines.flatten ++ (part ++ rest))) (Holds base)
  | 0, _, _, _, _, hfuel, _ => absurd hfuel (Nat.not_lt_zero _)
  | fuel + 1, lines, part, a, rest, hfuel, hpart => by
    unfold scanRecords
    refine .point' (fun _ h => h.index.db) (fun _ h => h.index.db) ?_
    rcases Fold.readSlice_cases rest with ⟨line, rest', hslice, hline, hsplit⟩ |
      ⟨fragment, rest', hslice, hfragment, hne, hsplit⟩ | ⟨hslice, hrest⟩
    · -- a newline: the record is complete
      rw [hslice]
      refine .bind' (takeFragment_completes lines part a _) fun a' => .at' fun i hi => ?_
      have hdata : a'.record.hasData := by simp [hi.record, RecordScan.of]
      show Completes _ (if _ then _ else _) _ _ _
      rw [if_pos hdata]
      refine .bind' ((completeRecord_completes g lines _ a').pre (held hi)) fun stats => ?_
      have hlt : rest'.length < fuel := by
        rw [hsplit, length_append, length_cons] at hfuel
        omega
      have hmore := scanRecords_completes g hmax fuel (lines ++ [part ++ (line ++ [Fold.newline])]) []
        ⟨stats, a'.chunker, newRecord options⟩ rest' hlt (by simp)
      have hcut : lines ++ cutAfter Fold.newline (part ++ rest) =
          lines ++ [part ++ (line ++ [Fold.newline])] ++ cutAfter Fold.newline rest' := by
        have hout : Fold.newline ∉ part ++ line := by simp [hpart, hline]
        have hone := cutAfter_line hout rest'
        rw [hsplit, ← append_assoc, hone]
        simp
      have hall : lines.flatten ++ (part ++ rest) =
          (lines ++ [part ++ (line ++ [Fold.newline])]).flatten ++ ([] ++ rest') := by
        rw [hsplit]
        simp
      rw [hcut, hall]
      refine hmore.pre fun j hj => ⟨?_, newRecord_eq hmax⟩
      have hflat : (lines ++ [part ++ (line ++ [Fold.newline])]).flatten ++ [] =
          lines.flatten ++ (part ++ (line ++ [Fold.newline])) := by simp
      rw [hflat]
      exact ⟨hj.index, hj.stats, hj.chunker⟩
    · rw [hslice]
      refine .bind' (takeFragment_completes lines part a fragment) fun a' => ?_
      have hlt : rest'.length < fuel := by
        have hpos := length_pos_of_ne_nil hne
        rw [hsplit, length_append] at hfuel
        omega
      have hmore := scanRecords_completes g hmax fuel lines (part ++ fragment) a' rest' hlt (by simp [hpart, hfragment])
      rwa [append_assoc, ← hsplit] at hmore
    · -- the end: what is left is the last record, if it is anything
      rw [hslice]
      refine .bind' (takeFragment_completes lines part a rest) fun a' => .at' fun i hi => ?_
      show Completes _ (if _ then _ else _) _ _ _
      by_cases hnil : part ++ rest = []
      · have hdata : a'.record.hasData = false := by simp [hi.record, RecordScan.of, hnil]
        rw [if_neg (by simp [hdata]), hnil, cutAfter_nil, append_nil]
        refine .pure' a' fun j hj => ?_
        subst hj
        have hpassed := hi.toPassed
        rwa [hnil] at hpassed
      · have hdata : a'.record.hasData := by simp [hi.record, RecordScan.of, hnil]
        have hout : Fold.newline ∉ part ++ rest := by simp [hpart, hrest]
        rw [if_pos hdata, cutAfter_last hout hnil]
        refine .bind' ((completeRecord_completes g lines _ a').pre (held hi)) fun stats => ?_
        exact .pure' _ fun j hj => hj

theorem finishChunks_completes (lines : List Bytes) (data : Bytes) (a : StreamScan) :
    CompletesOr (Passed sha256 decoder options base file seen state start lines data a) (finishChunks sha256 a)
      (fun stats i => Found sha256 decoder options base file seen state lines (chunksOf start data) i ∧ stats = statsOf decoder options data.length lines (chunksOf start data)) (Holds base) := by
  refine .at' fun i hi => ?_
  obtain ⟨hindex, hstats, hchunker⟩ := hi
  unfold finishChunks chunksOf
  cases hc : chunked start data with
  | mk c chunks =>
    rw [hc] at hindex hstats hchunker
    rw [hchunker]
    cases c with
    | none => exact .pure' _ fun j hj => hj ▸ ⟨hindex, hstats⟩
    | some c =>
      have hpre : ∀ j, j = i → Found sha256 decoder options base file seen state lines chunks j ∧
          a.stats = statsOf decoder options data.length lines chunks := by
        intro j hj
        subst hj
        exact ⟨hindex, hstats⟩
      refine .bind' ((Chunker.finish_completes
        (observeChunk_completes data.length lines) c a.stats chunks).pre hpre) ?_
      rintro ⟨c', stats'⟩
      refine .pure' _ fun j hj => ?_
      obtain ⟨m', hpair, hfound⟩ := hj
      cases hpair
      exact hfound


end

section
variable {Digest : Type} (sha256 : Bytes → Digest) (decoder : Decoder) (given : DedupScanOptions)

def startOf : Option Chunker :=
  match newChunker given.withDefaults with
  | .ok start => start
  | .error _ => none

def found (content : Bytes) : Seen Digest :=
  seenIn sha256 decoder given.withDefaults (cutAfter Fold.newline content) (chunksOf (startOf given) content)

def fileStats (content : Bytes) : DedupFileStats :=
  statsOf decoder given.withDefaults content.length (cutAfter Fold.newline content)
    (chunksOf (startOf given) content)

end

theorem withDefaults_maxJSONLineBytes (given : DedupScanOptions) : 0 ≤ given.withDefaults.maxJSONLineBytes := by
  unfold DedupScanOptions.withDefaults
  dsimp only
  split
  · decide
  · omega

section
variable {Digest : Type} [DecidableEq Digest] {sha256 : Bytes → Digest} {decoder : Decoder}
  {isSyntaxError : String → Bool} {base : Tables Digest} {file : String} {seen : Seen Digest}
  {state : Option (ScannedFileState Digest)}

theorem scanDedupStream_completes (g : Grammar decoder isSyntaxError) (given : DedupScanOptions)
    (haccepted : ∃ start, newChunker given.withDefaults = .ok start) (content : Bytes) :
    CompletesOr (Scanning base file seen state) (scanDedupStream sha256 decoder isSyntaxError given content) (fun stats i => Scanning base file
      (fun layer => seen layer ++ found sha256 decoder given content layer) state i ∧ stats = fileStats decoder given content) (Holds base) := by
  obtain ⟨start, hstart⟩ := haccepted
  unfold scanDedupStream found fileStats startOf
  dsimp only
  rw [hstart]
  have hbegin : ∀ i, Scanning base file seen state i →
      Reading sha256 decoder given.withDefaults base file seen state start [] []
        ⟨newStats, start, newRecord given.withDefaults⟩ i := by
    intro i hi
    have hnone : chunked start [] = (start, []) := by cases start <;> rfl
    refine ⟨⟨?_, ?_, ?_⟩, newRecord_eq (withDefaults_maxJSONLineBytes given)⟩
    · have hseen : (fun layer => seen layer ++ seenIn sha256 decoder given.withDefaults [] [] layer) = seen := by
        funext layer
        cases layer <;> simp [seenIn]
      show Found sha256 decoder given.withDefaults base file seen state [] (chunked start []).2 i
      rw [hnone]
      unfold Found
      rwa [hseen]
    · show newStats = statsOf decoder given.withDefaults 0 [] (chunked start []).2
      simp [hnone, newStats, statsOf]
    · show start = (chunked start []).1
      rw [hnone]
  refine .bind' (.pure' start fun _ hi => ⟨hi, rfl⟩) fun c => .given fun hc => ?_
  subst hc
  refine .bind' ((scanRecords_completes g (withDefaults_maxJSONLineBytes given) _ [] [] _ content
    (Nat.lt_succ_self _) (by simp)).pre hbegin) fun a => ?_
  exact finishChunks_completes _ content a

end

end CodexFold.Scan
