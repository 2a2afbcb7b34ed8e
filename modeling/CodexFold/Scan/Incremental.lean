import CodexFold.Foundation.Traces
import CodexFold.Scan.Evaluate

/- Incremental scanning equals full scanning.

   The index follows the rollouts (`Follows`): the rows and the state of every scanned
   file are those of one pass over what the file held at its last scan, which is still the
   beginning of it. Every Evaluate keeps this, wherever a fault stops it, and one that is
   not stopped returns and brings the files it looked at up to date. -/
namespace CodexFold.Scan
open Foundation List Option JsonRaw

/-! ## A pass over a rollout that has grown -/

section
variable {Digest : Type} (sha256 : Bytes → Digest) (decoder : Decoder) (options : Options)

def wholeOptions : DedupScanOptions := dedupOptions options.layers options

def tailOptions : DedupScanOptions := dedupOptions ⟨options.layers.record, options.layers.field, false⟩ options

def chunkOptions : DedupScanOptions := dedupOptions ⟨false, false, true⟩ options

section

variable {first : Bytes} (h : endsWithNewline first = true)
include h

theorem lines_append (rest : Bytes) :
    cutAfter Fold.newline (first ++ rest) = cutAfter Fold.newline first ++ cutAfter Fold.newline rest := by
  refine cutAfter_append ?_ rest
  simpa [endsWithNewline] using h

omit h in
theorem startOf_tail : startOf (tailOptions options) = none := rfl

omit h in
theorem startOf_chunk (hcdc : options.layers.cdc) :
    startOf (chunkOptions options) = startOf (wholeOptions options) := by
  have hnew : newChunker (chunkOptions options).withDefaults = newChunker (wholeOptions options).withDefaults := by
    simp [newChunker, chunkOptions, wholeOptions, dedupOptions, DedupScanOptions.withDefaults, hcdc]
  unfold startOf
  rw [hnew]

omit h in
theorem startOf_whole (hcdc : options.layers.cdc = false) : startOf (wholeOptions options) = none := by
  simp [startOf, newChunker, wholeOptions, dedupOptions, DedupScanOptions.withDefaults, hcdc]

theorem found_append (rest : Bytes) :
    (fun layer =>
      if layer = .cdc then found sha256 decoder (wholeOptions options) (first ++ rest) .cdc
      else found sha256 decoder (wholeOptions options) first layer ++
        found sha256 decoder (tailOptions options) rest layer) =
      found sha256 decoder (wholeOptions options) (first ++ rest) := by
  funext layer
  cases layer with
  | record =>
    by_cases hrec : options.layers.record = true
    · simp [found, seenIn, lines_append h, wholeOptions, tailOptions, dedupOptions, DedupScanOptions.withDefaults, hrec]
    · simp [found, seenIn, wholeOptions, tailOptions, dedupOptions, DedupScanOptions.withDefaults, hrec]
  | field =>
    have hfields : fields decoder (tailOptions options).withDefaults =
        fields decoder (wholeOptions options).withDefaults := rfl
    simp [found, seenIn, lines_append h, hfields]
  | cdc => simp

theorem fileStats_append (rest : Bytes) :
    fileStats decoder (wholeOptions options) (first ++ rest) =
      { addFileStats (fileStats decoder (wholeOptions options) first)
          (fileStats decoder (tailOptions options) rest) with
        scannedBytes := (first ++ rest).length
        cdcChunkCount := (fileStats decoder (wholeOptions options) (first ++ rest)).cdcChunkCount
        cdcBytes := (fileStats decoder (wholeOptions options) (first ++ rest)).cdcBytes } := by
  have hfields : fields decoder (tailOptions options).withDefaults =
      fields decoder (wholeOptions options).withDefaults := rfl
  have hstrings : strings decoder (tailOptions options).withDefaults =
      strings decoder (wholeOptions options).withDefaults := rfl
  have hlong : tooLong (tailOptions options).withDefaults = tooLong (wholeOptions options).withDefaults := rfl
  have hfield : (tailOptions options).withDefaults.layers.field =
      (wholeOptions options).withDefaults.layers.field := rfl
  by_cases hf : (wholeOptions options).withDefaults.layers.field = true
  · simp [fileStats, statsOf, addFileStats, lines_append h, hfields, hstrings, hlong, hfield, hf]
  · simp [fileStats, statsOf, addFileStats, lines_append h, hfields, hfield, hf]

end

theorem fileStats_chunks (hcdc : options.layers.cdc) (content : Bytes) :
    (fileStats decoder (chunkOptions options) content).cdcChunkCount =
        (fileStats decoder (wholeOptions options) content).cdcChunkCount ∧
      (fileStats decoder (chunkOptions options) content).cdcBytes =
        (fileStats decoder (wholeOptions options) content).cdcBytes := by
  simp [fileStats, statsOf, startOf_chunk options hcdc]

theorem fileStats_noChunks {given : DedupScanOptions} (h : startOf given = none) (content : Bytes) :
    (fileStats decoder given content).cdcChunkCount = 0 ∧ (fileStats decoder given content).cdcBytes = 0 := by
  simp [fileStats, statsOf, h, chunksOf, chunked]

end

/-! ## One rollout -/

section
variable {Digest : Type} [DecidableEq Digest] {sha256 : Bytes → Digest} {decoder : Decoder}
  {isSyntaxError : String → Bool} {rollouts : Files String Rollout} {options : Options} {path : String}
  {rollout : Rollout} {base : Tables Digest} {seen : Seen Digest} {state : Option (ScannedFileState Digest)}
variable {t : Tables Digest}

variable (sha256 decoder options)

def stateOf (rollout : Rollout) : ScannedFileState Digest where
  size := rollout.content.length
  modTimeNanos := rollout.modTimeNanos
  prefixSHA256 := sha256 rollout.content
  endsWithNewline := endsWithNewline rollout.content
  stats := fileStats decoder (wholeOptions options) rollout.content

/-- The index has `rollout` under `path`, as one pass over it leaves it. -/
structure Recorded (t : Tables Digest) (path : String) (rollout : Rollout) : Prop where
  state : t.files.get path = some (stateOf sha256 decoder options rollout)
  shows : t.Shows path (found sha256 decoder (wholeOptions options) rollout.content)

variable {sha256 decoder options}

def candidateOf (path : String) (rollout : Rollout) : Candidate := ⟨path, snapshotFile rollout⟩

/-- The bounds of the chunker, when it is used, are ones it accepts. -/
def Accepted (options : Options) : Prop :=
  options.layers.cdc = true → ∃ chunker, Cdc.new options.cdc = .ok chunker

theorem Accepted.newChunker {layers : Layers} (h : Accepted options) (hcdc : layers.cdc → options.layers.cdc) :
    ∃ start, newChunker (dedupOptions layers options).withDefaults = .ok start := by
  unfold Scan.newChunker
  by_cases hl : layers.cdc = true
  · obtain ⟨chunker, hnew⟩ := h (hcdc hl)
    have hcase : (dedupOptions layers options).withDefaults.layers.cdc = true := hl
    have hopt : (dedupOptions layers options).withDefaults.cdc = options.cdc := rfl
    rw [if_pos hcase, hopt, hnew]
    exact ⟨some chunker, rfl⟩
  · have hcase : ¬(dedupOptions layers options).withDefaults.layers.cdc = true := hl
    rw [if_neg hcase]
    exact ⟨none, rfl⟩

theorem scanned_completes (h : rollouts.get path = some rollout) {stats : DedupFileStats}
    {P : DedupIndex Digest → Prop} (hp : ∀ i, P i → Holds base i) :
    Completes P (do
        verifyScannedPrefix sha256 rollouts path rollout.content.length (sha256 rollout.content)
        let ends ← filePrefixEndsWithNewline rollouts path rollout.content.length
        pure (stats, sha256 rollout.content, ends))
      (fun r i => P i ∧ r = (stats, sha256 rollout.content, endsWithNewline rollout.content))
      (fun _ => Holds base) (Holds base) := by
  refine verifyScannedPrefix_completes h (fun _ => hp) hp ?_
  refine filePrefixEndsWithNewline_completes h (fun _ => hp) hp ?_
  exact .pure' _ fun _ hi => ⟨hi, rfl⟩

section

variable (g : Grammar decoder isSyntaxError)
include g

section

variable (haccepted : Accepted options)
include haccepted

section

variable (h : rollouts.get path = some rollout)
include h

theorem scanWholeFile_completes :
    CompletesOr (Scanning base path seen state) (scanWholeFile sha256 decoder isSyntaxError rollouts (candidateOf path rollout) options.layers options) (fun r i => Scanning base path
      (fun layer => seen layer ++ found sha256 decoder (wholeOptions options) rollout.content layer) state i ∧ r = (fileStats decoder (wholeOptions options) rollout.content, sha256 rollout.content, endsWithNewline rollout.content)) (Holds base) := by
  unfold scanWholeFile
  refine .point' (fun _ hi => hi.db) (fun _ hi => hi.db) ?_
  refine openRollout_completes h (fun _ _ hi => hi.db) (fun _ hi => hi.db) ?_
  have hall : rollout.content.take (candidateOf path rollout).snapshot.size = rollout.content := take_length
  rw [hall]
  refine .bind' (scanDedupStream_completes g _ (haccepted.newChunker id) rollout.content) fun stats =>
    .given fun hstats => ?_
  subst hstats
  refine .point' (fun _ hi => hi.db) (fun _ hi => hi.db) ?_
  exact scanned_completes h fun _ hi => hi.db

theorem rebuildChunks_completes {stats : DedupFileStats} (hnone : options.layers.cdc = false → seen .cdc = []) :
    Completes (Scanning base path seen state)
      (rebuildChunks sha256 decoder isSyntaxError rollouts (candidateOf path rollout) options.layers options stats)
      (fun stats' i => Scanning base path (fun layer =>
          if layer = .cdc then found sha256 decoder (wholeOptions options) rollout.content .cdc else seen layer) state i ∧
        stats' = if options.layers.cdc then
            { stats with
              cdcChunkCount := (fileStats decoder (wholeOptions options) rollout.content).cdcChunkCount
              cdcBytes := (fileStats decoder (wholeOptions options) rollout.content).cdcBytes }
          else stats)
      (fun _ => Holds base) (Holds base) := by
  unfold rebuildChunks
  by_cases hcdc : options.layers.cdc = true
  · rw [if_pos hcdc, if_pos hcdc]
    refine .bind' (deleteFileLayers_completes ⟨false, false, true⟩) fun _ => ?_
    refine openRollout_completes h (fun _ _ hi => hi.db) (fun _ hi => hi.db) ?_
    have hall : rollout.content.take (candidateOf path rollout).snapshot.size = rollout.content := take_length
    rw [hall]
    refine .bind' (scanDedupStream_completes g _ (haccepted.newChunker fun _ => hcdc) rollout.content)
      fun cdcStats => .given fun hstats => ?_
    refine .point' (fun _ hi => hi.db) (fun _ hi => hi.db) ?_
    have hcounts := fileStats_chunks decoder options hcdc rollout.content
    refine .pure' _ fun i hi => ⟨?_, by rw [hstats, ← hcounts.1, ← hcounts.2]; rfl⟩
    have hseen : (fun layer => (if (⟨false, false, true⟩ : Layers).has layer = true then [] else seen layer) ++
          found sha256 decoder (dedupOptions ⟨false, false, true⟩ options) rollout.content layer) =
        fun layer => if layer = .cdc then found sha256 decoder (wholeOptions options) rollout.content .cdc
          else seen layer := by
      have hstart := startOf_chunk options hcdc
      unfold chunkOptions at hstart
      funext layer
      cases layer with
      | record => simp [Layers.has, found, seenIn, dedupOptions, DedupScanOptions.withDefaults]
      | field => simp [Layers.has, found, seenIn, dedupOptions, DedupScanOptions.withDefaults, fields]
      | cdc => simp [Layers.has, found, seenIn, hstart]
    rwa [hseen] at hi
  · have hoff : options.layers.cdc = false := by simpa using hcdc
    rw [if_neg hcdc, if_neg hcdc]
    refine .pure' _ fun i hi => ⟨?_, rfl⟩
    have hseen : (fun layer => if layer = .cdc then found sha256 decoder (wholeOptions options) rollout.content .cdc
        else seen layer) = seen := by
      funext layer
      cases layer with
      | record | field => rfl
      | cdc => simp [hnone hoff, found, seenIn, startOf_whole options hoff, chunksOf, chunked]
    rwa [hseen]

theorem scanAppendedFile_completes {first rest : Bytes} (hcontent : rollout.content = first ++ rest)
    (hends : endsWithNewline first) {previous : ScannedFileState Digest} (hsize : previous.size = first.length)
    (hstats : previous.stats = fileStats decoder (wholeOptions options) first) :
    CompletesOr (Scanning base path (found sha256 decoder (wholeOptions options) first) state) (scanAppendedFile sha256 decoder isSyntaxError rollouts (candidateOf path rollout) previous options.layers options first)
      (fun r i => Scanning base path (found sha256 decoder (wholeOptions options) rollout.content) state i ∧ r = (fileStats decoder (wholeOptions options) rollout.content, sha256 rollout.content, endsWithNewline rollout.content)) (Holds base) := by
  unfold scanAppendedFile
  refine openRollout_completes h (fun _ _ hi => hi.db) (fun _ hi => hi.db) ?_
  have htail : (rollout.content.drop previous.size).take
      ((candidateOf path rollout).snapshot.size - previous.size) = rest := by
    have hlen : (candidateOf path rollout).snapshot.size = (first ++ rest).length := by rw [← hcontent]; rfl
    rw [hlen, hcontent, hsize]
    simp
  rw [htail]
  refine .bind' (scanDedupStream_completes g _ (haccepted.newChunker (by simp)) rest) fun tailStats =>
    .given fun htailStats => ?_
  refine .point' (fun _ hi => hi.db) (fun _ hi => hi.db) ?_
  refine .bind' (rebuildChunks_completes g haccepted h ?_) fun stats => .given fun hnew => ?_
  · intro hoff
    have htailNone : startOf (dedupOptions ⟨options.layers.record, options.layers.field, false⟩ options) = none := rfl
    simp [found, seenIn, startOf_whole options hoff, htailNone, chunksOf, chunked]
  · refine .point' (fun _ hi => hi.db) (fun _ hi => hi.db) ?_
    have hfinal : stats = fileStats decoder (wholeOptions options) rollout.content := by
      have hsum := fileStats_append decoder options hends rest
      rw [← hcontent] at hsum
      rw [hnew, hstats, htailStats, hsum]
      by_cases hcdc : options.layers.cdc = true
      · rw [if_pos hcdc]
        rfl
      · -- without that layer both parts counted no chunk
        have hoff : options.layers.cdc = false := by simpa using hcdc
        have hwhole := startOf_whole options hoff
        rw [if_neg hcdc]
        have hnone := fileStats_noChunks decoder hwhole
        have htailNone : (fileStats decoder (dedupOptions ⟨options.layers.record, options.layers.field, false⟩ options)
              rest).cdcChunkCount = 0 ∧
            (fileStats decoder (dedupOptions ⟨options.layers.record, options.layers.field, false⟩ options)
              rest).cdcBytes = 0 :=
          fileStats_noChunks decoder (startOf_tail options) rest
        simp only [addFileStats, hnone, htailNone]
        rfl
    subst hfinal
    rw [← hcontent]
    refine (scanned_completes h fun _ hi => hi.db).weaken (fun r i hi => ⟨?_, hi.2⟩)
    have hseen := found_append sha256 decoder options hends rest
    rw [← hcontent] at hseen
    rw [← hseen]
    exact hi.1

end

end

end

variable (sha256 decoder options)

structure Advanced (base : Tables Digest) (path : String) (rollout : Rollout) (t : Tables Digest) : Prop where
  elsewhere : Tables.Elsewhere path base t
  recorded : Recorded sha256 decoder options t path rollout

def Moved (base : Tables Digest) (path : String) (rollout : Rollout) (t : Tables Digest) : Prop :=
  t = base ∨ Advanced sha256 decoder options base path rollout t

variable {sha256 decoder options}

theorem rollback_moved (_ : String) : Spec (Holds base) rollbackFile
      (fun _ i => i.tx = none ∧ Moved sha256 decoder options base path rollout i.db)
      (fun _ i => i.tx = none ∧ Moved sha256 decoder options base path rollout i.db)
      (fun i => Moved sha256 decoder options base path rollout i.db) :=
  rollbackFile_spec.post (fun _ _ hi => ⟨hi.2, .inl hi.1⟩) (fun _ _ hi => ⟨hi.2, .inl hi.1⟩) fun _ => .inl

abbrev Commits {α : Type} (sha256 : Bytes → Digest) (decoder : Decoder) (options : Options) (base : Tables Digest)
    (path : String) (rollout : Rollout) (P : DedupIndex Digest → Prop) (x : Scanner Digest α) : Prop :=
  Completes P x (fun _ i => i.tx = none ∧ Advanced sha256 decoder options base path rollout i.db)
    (fun _ i => i.tx = none ∧ Moved sha256 decoder options base path rollout i.db)
    (fun i => Moved sha256 decoder options base path rollout i.db)

theorem saveAndCommit_completes :
    Commits sha256 decoder options base path rollout
      (Scanning base path (found sha256 decoder (wholeOptions options) rollout.content) state)
      (saveAndCommit (candidateOf path rollout) (fileStats decoder (wholeOptions options) rollout.content,
        sha256 rollout.content, endsWithNewline rollout.content)) := by
  refine .bind' (.onFailure'
    ((saveFileState_completes (stateOf sha256 decoder options rollout)).post (fun _ _ hi => hi) (fun _ _ hi => hi)
      (fun _ => .inl)) rollback_moved) fun _ => ?_
  have hdraft : ∀ t, Draft base path (found sha256 decoder (wholeOptions options) rollout.content)
      (some (stateOf sha256 decoder options rollout)) t →
      Advanced sha256 decoder options base path rollout t := fun t ht => ⟨ht.elsewhere, ht.saved, ht.shows⟩
  refine .bind' (M := fun _ i => i.tx = none ∧ Advanced sha256 decoder options base path rollout i.db)
    (commitFile_completes.post (fun _ _ hi => ⟨hi.1, hdraft _ hi.2⟩)
    (fun _ _ hi => ⟨hi.2, .inl hi.1⟩) (fun _ hi => hi.imp id (hdraft _))) fun _ => ?_
  exact .effect' _ id (fun _ hi => hi) (fun _ hi => ⟨hi.1, .inr hi.2⟩) fun _ hi => .inr hi.2

section

variable (g : Grammar decoder isSyntaxError)
include g

theorem evaluateWhole_completes (haccepted : Accepted options) (h : rollouts.get path = some rollout)
    (hseen : base.Shows path seen) (hoff : ∀ layer, options.layers.has layer = false → seen layer = [])
    (result : Result) :
    Commits sha256 decoder options base path rollout (Idle base)
      (evaluateWhole sha256 decoder isSyntaxError rollouts (candidateOf path rollout) options.layers options result) := by
  refine .bind' ((beginFile_completes path hseen).post (fun _ _ hi => hi) (fun _ _ hi => ⟨hi.2, .inl hi.1⟩)
    (fun _ => .inl)) fun _ => ?_
  refine .bind' (.onFailure' ((Completes.bind'
    (deleteFileLayers_completes options.layers) fun _ => scanWholeFile_completes g haccepted h).post
      (fun _ _ hi => hi) (fun _ _ hi => hi) (fun _ => .inl)) rollback_moved) fun scanned => ?_
  refine .given fun hscanned => ?_
  subst hscanned
  have hempty : (fun layer => (if options.layers.has layer = true then [] else seen layer) ++
      found sha256 decoder (wholeOptions options) rollout.content layer) =
      found sha256 decoder (wholeOptions options) rollout.content := by
    funext layer
    by_cases hl : options.layers.has layer = true
    · simp [hl]
    · simp [hl, hoff layer (by simpa using hl)]
  rw [hempty]
  refine .bind' saveAndCommit_completes fun _ => ?_
  exact .pure' _ fun _ hi => hi

theorem evaluateAppended_completes (haccepted : Accepted options) (h : rollouts.get path = some rollout) {old : Rollout}
    {rest : Bytes} (hcontent : rollout.content = old.content ++ rest) (hrest : rest ≠ [])
    (hends : endsWithNewline old.content) (hold : Recorded sha256 decoder options base path old) (result : Result) :
    Commits sha256 decoder options base path rollout (Idle base)
      (evaluateAppended sha256 decoder isSyntaxError rollouts (candidateOf path rollout)
        (stateOf sha256 decoder options old) options.layers options result) := by
  have hlen : rollout.content.length = old.content.length + rest.length := by rw [hcontent, length_append]
  have hpos := length_pos_of_ne_nil hrest
  have hgrown : decide (old.content.length < rollout.content.length) = true := by
    rw [decide_eq_true_eq]
    omega
  have he : ∀ (_ : String) i, Idle base i → i.tx = none ∧ Moved sha256 decoder options base path rollout i.db :=
    fun _ i hi => ⟨hi.2, .inl hi.1⟩
  have hc : ∀ i, Idle base i → Moved sha256 decoder options base path rollout i.db := fun i hi => .inl hi.1
  unfold evaluateAppended
  refine .ensure' hgrown (.ensure' hends ?_)
  refine hashFilePrefix_completes h (by show old.content.length ≤ _; omega) he hc ?_
  have hread : rollout.content.take (stateOf sha256 decoder options old).size = old.content := by
    rw [hcontent]
    exact take_left
  rw [hread]
  refine .ensure' (decide_eq_true rfl) ?_
  refine .bind' ((beginFile_completes path hold.shows).post (fun _ _ hi => hi) (fun e _ hi => he e _ hi)
    (fun _ => .inl)) fun _ => ?_
  refine .bind' (.onFailure'
    ((scanAppendedFile_completes g haccepted h hcontent hends rfl rfl).post (fun _ _ hi => hi) (fun _ _ hi => hi)
      (fun _ => .inl)) rollback_moved) fun scanned => .given fun hscanned => ?_
  subst hscanned
  refine .bind' saveAndCommit_completes fun _ => ?_
  exact .pure' _ fun _ hi => hi

end

/-! ## The index follows the rollouts -/

structure Behind (old rollout : Rollout) : Prop where
  start : old.content <+: rollout.content
  same : old.content = rollout.content → old = rollout
  ends : old.content ≠ rollout.content → endsWithNewline old.content = true

theorem Behind.refl (rollout : Rollout) : Behind rollout rollout :=
  ⟨prefix_rfl, fun _ => rfl, absurd rfl⟩

structure Follows (sha256 : Bytes → Digest) (decoder : Decoder) (options : Options)
    (rollouts : Files String Rollout) (t : Tables Digest) : Prop where
  configuration : ∀ c, t.configuration = some c → c = scanConfiguration options.layers options
  unscanned : ∀ path, t.files.get path = none → t.Shows path fun _ => []
  scanned : ∀ path state, t.files.get path = some state →
    ∃ old rollout, rollouts.get path = some rollout ∧ Recorded sha256 decoder options t path old ∧ Behind old rollout

theorem Recorded.elsewhere {other : String} {old : Rollout}
    (h : Recorded sha256 decoder options base other old) (he : Tables.Elsewhere path base t) (hne : other ≠ path) :
    Recorded sha256 decoder options t other old :=
  ⟨(he.files other hne).trans h.state, he.shows hne h.shows⟩

section

variable (h : Follows sha256 decoder options rollouts base)
include h

theorem Follows.advanced (hget : rollouts.get path = some rollout)
    (ht : Advanced sha256 decoder options base path rollout t) :
    Follows sha256 decoder options rollouts t where
  configuration c hc := h.configuration c (ht.elsewhere.configuration ▸ hc)
  unscanned other hnone := by
    by_cases hp : other = path
    · subst hp
      rw [ht.recorded.state] at hnone
      cases hnone
    · exact ht.elsewhere.shows hp (h.unscanned other (ht.elsewhere.files other hp ▸ hnone))
  scanned other state hstate := by
    by_cases hp : other = path
    · subst hp
      exact ⟨rollout, rollout, hget, ht.recorded, .refl rollout⟩
    · rw [ht.elsewhere.files other hp] at hstate
      obtain ⟨old, current, hcurrent, hold, hbehind⟩ := h.scanned other state hstate
      exact ⟨old, current, hcurrent, hold.elsewhere ht.elsewhere hp, hbehind⟩

theorem Follows.moved (hget : rollouts.get path = some rollout) (ht : Moved sha256 decoder options base path rollout t) :
    Follows sha256 decoder options rollouts t := by
  rcases ht with rfl | ht
  · exact h
  · exact h.advanced hget ht

end

def Settled (sha256 : Bytes → Digest) (decoder : Decoder) (options : Options)
    (rollouts : Files String Rollout) (done : List Candidate) (t : Tables Digest) : Prop :=
  ∀ candidate ∈ done, ∀ rollout, rollouts.get candidate.rolloutPath = some rollout →
    Recorded sha256 decoder options t candidate.rolloutPath rollout

theorem Settled.advanced {done : List Candidate}
    (h : Settled sha256 decoder options rollouts done base) (hget : rollouts.get path = some rollout)
    (ht : Advanced sha256 decoder options base path rollout t) :
    Settled sha256 decoder options rollouts (done ++ [candidateOf path rollout]) t := by
  intro candidate hmem current hcurrent
  by_cases hp : candidate.rolloutPath = path
  · rw [hp, hget] at hcurrent
    cases hcurrent
    rw [hp]
    exact ht.recorded
  · rcases mem_append.mp hmem with hmem | hmem
    · exact (h candidate hmem current hcurrent).elsewhere ht.elsewhere hp
    · rw [mem_singleton] at hmem
      subst hmem
      exact absurd rfl hp

omit [DecidableEq Digest] in
theorem found_disabled (content : Bytes) {layer : Layer} (h : options.layers.has layer = false) :
    found sha256 decoder (wholeOptions options) content layer = [] := by
  cases layer with
  | record =>
    have hrec : options.layers.record = false := h
    simp [found, seenIn, wholeOptions, dedupOptions, DedupScanOptions.withDefaults, hrec]
  | field =>
    have hfield : options.layers.field = false := h
    simp [found, seenIn, fields, wholeOptions, dedupOptions, DedupScanOptions.withDefaults, hfield]
  | cdc => simp [found, seenIn, startOf_whole options h, chunksOf, chunked]

structure Between (sha256 : Bytes → Digest) (decoder : Decoder) (options : Options)
    (rollouts : Files String Rollout) (done : List Candidate) (i : DedupIndex Digest) : Prop where
  idle : i.tx = none
  follows : Follows sha256 decoder options rollouts i.db
  settled : Settled sha256 decoder options rollouts done i.db

theorem Commits.settles {α : Type} {P : DedupIndex Digest → Prop} {x : Scanner Digest α} {done : List Candidate}
    (hfollows : Follows sha256 decoder options rollouts base) (hsettled : Settled sha256 decoder options rollouts done base)
    (hget : rollouts.get path = some rollout) (h : Commits sha256 decoder options base path rollout P x) :
    Completes P x (fun _ => Between sha256 decoder options rollouts (done ++ [candidateOf path rollout]))
      (fun _ i => i.tx = none ∧ Follows sha256 decoder options rollouts i.db)
      (fun i => Follows sha256 decoder options rollouts i.db) :=
  h.post (fun _ _ hi => ⟨hi.1, hfollows.advanced hget hi.2, hsettled.advanced hget hi.2⟩)
    (fun _ _ hi => ⟨hi.1, hfollows.moved hget hi.2⟩) fun _ hi => hfollows.moved hget hi

theorem evaluateCandidate_completes (g : Grammar decoder isSyntaxError) (haccepted : Accepted options)
    (hget : rollouts.get path = some rollout) (done : List Candidate) (result : Result) :
    Completes (Between sha256 decoder options rollouts done)
      (evaluateCandidate sha256 decoder isSyntaxError rollouts options.layers options result (candidateOf path rollout))
      (fun _ => Between sha256 decoder options rollouts (done ++ [candidateOf path rollout]))
      (fun _ i => i.tx = none ∧ Follows sha256 decoder options rollouts i.db)
      (fun i => Follows sha256 decoder options rollouts i.db) := by
  refine .at' fun i hi => ?_
  obtain ⟨htx, hfollows, hsettled⟩ := hi
  have hidle : ∀ j, j = i → Idle i.db j := by
    intro j hj
    subst hj
    exact ⟨rfl, htx⟩
  refine .pre ?_ hidle
  refine .point' (fun j hj => ⟨hj.2, hj.1 ▸ hfollows⟩) (fun j hj => hj.1 ▸ hfollows) ?_
  refine .bind' ((loadFileState_completes path).post (fun _ _ h => h) (fun _ j hj => ⟨hj.2, hj.1 ▸ hfollows⟩)
    (fun j hj => by rw [show j.db = i.db from hj]; exact hfollows)) fun state => .given fun hstate => ?_
  subst hstate
  cases hfile : i.db.files.get path with
  | none =>
    exact (evaluateWhole_completes g haccepted hget (hfollows.unscanned path hfile) (fun _ _ => rfl) result).settles hfollows
      hsettled hget
  | some state =>
    obtain ⟨old, current, hcurrent, hold, hbehind⟩ := hfollows.scanned path state hfile
    rw [hget] at hcurrent
    cases hcurrent
    have hstate : state = stateOf sha256 decoder options old := by
      rw [hold.state] at hfile
      exact (some.inj hfile).symm
    subst hstate
    by_cases hinc : options.incremental = true
    · by_cases hsnap : (candidateOf path rollout).snapshot =
          ⟨(stateOf sha256 decoder options old).size, (stateOf sha256 decoder options old).modTimeNanos⟩
      · -- nothing new: the last scan saw the whole rollout
        have hlen : old.content.length = rollout.content.length := by
          injection hsnap with hsize _
          exact hsize.symm
        have hsame : old = rollout := hbehind.same (hbehind.start.eq_of_length hlen)
        subst hsame
        simp only [hinc, if_true]
        rw [if_pos hsnap]
        refine Commits.settles hfollows hsettled hget (.pure' _ fun j hj => ⟨hj.2, ?_⟩)
        rw [hj.1]
        exact ⟨.refl path i.db, hold⟩
      · obtain ⟨rest, hcontent⟩ := hbehind.start
        have hrest : rest ≠ [] := by
          rintro rfl
          rw [append_nil] at hcontent
          have hsame := hbehind.same hcontent
          subst hsame
          exact hsnap rfl
        have hne : old.content ≠ rollout.content := by
          intro he
          have hlen := congrArg length hcontent
          rw [length_append, he] at hlen
          exact hrest (length_eq_zero_iff.mp (by omega))
        simp only [hinc, if_true]
        rw [if_neg hsnap]
        exact (evaluateAppended_completes g haccepted hget hcontent.symm hrest (hbehind.ends hne) hold result).settles hfollows
          hsettled hget
    · simp only [hinc]
      exact (evaluateWhole_completes g haccepted hget hold.shows (fun layer hl => found_disabled old.content hl) result).settles
        hfollows hsettled hget

section

variable (h : Follows sha256 decoder options rollouts t)
include h

theorem Follows.configured :
    Follows sha256 decoder options rollouts
      { t with configuration := some (scanConfiguration options.layers options) } where
  configuration c hc := (some.inj hc).symm
  unscanned := h.unscanned
  scanned path state hstate := by
    obtain ⟨old, rollout, hget, hold, hbehind⟩ := h.scanned path state hstate
    exact ⟨old, rollout, hget, ⟨hold.state, hold.shows⟩, hbehind⟩

theorem Follows.pruned (stale : List String) :
    Follows sha256 decoder options rollouts (t.removeFiles stale) where
  configuration := h.configuration
  unscanned path hnone := by
    by_cases hp : path ∈ stale
    · exact t.removeFiles_gone hp
    · rw [Tables.removeFiles_files, if_neg hp] at hnone
      exact (h.unscanned path hnone).removeFiles hp
  scanned path state hstate := by
    rw [Tables.removeFiles_files] at hstate
    by_cases hp : path ∈ stale
    · rw [if_pos hp] at hstate
      cases hstate
    · rw [if_neg hp] at hstate
      obtain ⟨old, rollout, hget, hold, hbehind⟩ := h.scanned path state hstate
      refine ⟨old, rollout, hget, ⟨?_, hold.shows.removeFiles hp⟩, hbehind⟩
      rw [Tables.removeFiles_files, if_neg hp]
      exact hold.state

end

theorem Settled.pruned {done : List Candidate} (h : Settled sha256 decoder options rollouts done t) :
    Settled sha256 decoder options rollouts done (t.removeFiles (t.staleFiles (done.map Candidate.rolloutPath))) := by
  intro candidate hmem rollout hget
  have hp : candidate.rolloutPath ∉ t.staleFiles (done.map Candidate.rolloutPath) := by
    intro hstale
    have hout := (mem_filter.mp hstale).2
    rw [decide_eq_true_eq] at hout
    exact hout (List.mem_map_of_mem hmem)
  have hold := h candidate hmem rollout hget
  refine ⟨?_, hold.shows.removeFiles hp⟩
  rw [Tables.removeFiles_files, if_neg hp]
  exact hold.state

theorem pruneFiles_completes (done : List Candidate) : Completes (Between sha256 decoder options rollouts done)
      (pruneFiles options (done.map Candidate.rolloutPath)) (fun _ => Between sha256 decoder options rollouts done)
      (fun _ i => i.tx = none ∧ Follows sha256 decoder options rollouts i.db)
      (fun i => Follows sha256 decoder options rollouts i.db) := by
  unfold pruneFiles
  by_cases hprune : (options.incremental && options.wholeCorpus) = true
  · rw [if_pos hprune]
    refine .at' fun i hi => ?_
    have hidle : ∀ j, j = i → Idle i.db j := by
      intro j hj
      subst hj
      exact ⟨rfl, hi.idle⟩
    refine ((removeFilesNotIn_completes (done.map Candidate.rolloutPath)).pre hidle).post ?_
      (fun _ j hj => ⟨hj.2, hj.1 ▸ hi.follows⟩) (fun j hj => by rw [show j.db = i.db from hj]; exact hi.follows)
    rintro _ j ⟨htx, hdb | hdb⟩
    · exact ⟨htx, hdb ▸ hi.follows, hdb ▸ hi.settled⟩
    · exact ⟨htx, hdb ▸ hi.follows.pruned _, hdb ▸ hi.settled.pruned⟩
  · rw [if_neg hprune]
    exact .pure' () fun _ hi => hi

/-! ## Evaluate -/

theorem mem_selectCandidates {paths : List String} {candidate : Candidate} : candidate ∈ selectCandidates rollouts paths ↔
      ∃ path ∈ paths, ∃ rollout, rollouts.get path = some rollout ∧ candidate = candidateOf path rollout := by
  simp only [selectCandidates, mem_filterMap, map_eq_some_iff, candidateOf]
  constructor
  · rintro ⟨path, hpath, rollout, hget, rfl⟩
    exact ⟨path, hpath, rollout, hget, rfl⟩
  · rintro ⟨path, hpath, rollout, hget, rfl⟩
    exact ⟨path, hpath, rollout, hget, rfl⟩

omit [DecidableEq Digest] in
theorem closeDedupIndex_completes {P : DedupIndex Digest → Prop} {E : String → DedupIndex Digest → Prop}
    {C : DedupIndex Digest → Prop} (hidle : ∀ i, P i → i.tx = none) (he : ∀ e i, P i → E e i) (hc : ∀ i, P i → C i) :
    Completes P closeDedupIndex (fun _ => P) E C := by
  refine .bind' (M := fun _ => P) (.at' fun i hi => .readAt ?_) fun _ => ?_
  · rw [hidle i hi]
    exact .pure' () (held hi)
  · exact .effect' _ id (fun _ hi => hi) (he _) hc

theorem evaluate_completes (sha256 : Bytes → Digest) (g : Grammar decoder isSyntaxError)
    (rollouts : Files String Rollout) (given : Options) (haccepted : Accepted (normalizeScanOptions given)) (paths : List String) :
    CompletesOr (fun i => Follows sha256 decoder (normalizeScanOptions given) rollouts i.db) (evaluate sha256 decoder isSyntaxError rollouts given paths) (fun _ => Between sha256 decoder (normalizeScanOptions given) rollouts (selectCandidates rollouts paths))
      (fun i => Follows sha256 decoder (normalizeScanOptions given) rollouts i.db) := by
  refine .bind' (M := fun _ i => i.tx = none ∧ Follows sha256 decoder (normalizeScanOptions given) rollouts i.db)
    (.point' (fun _ h => h) (fun _ h => h) (.modify' _ fun _ h => ⟨rfl, h⟩)) fun _ => ?_
  refine .bind' (M := fun _ => Between sha256 decoder (normalizeScanOptions given) rollouts
    (selectCandidates rollouts paths)) (.onFailure' (F := fun _ i => i.tx = none ∧
      Follows sha256 decoder (normalizeScanOptions given) rollouts i.db) ?_ ?_) fun result => ?_
  · refine .at' fun i hi => ?_
    have hidle : ∀ j, j = i → Idle i.db j := by
      intro j hj
      subst hj
      exact ⟨rfl, hi.1⟩
    refine .bind' (M := fun _ => Between sha256 decoder (normalizeScanOptions given) rollouts [])
      (((ensureConfiguration_completes _ hi.2.configuration).pre hidle).post (fun _ j hj => ?_)
        (fun _ j hj => ⟨hj.2, hj.1 ▸ hi.2⟩) (fun j hj => by rw [show j.db = i.db from hj]; exact hi.2)) fun _ => ?_
    · exact ⟨hj.2, hj.1 ▸ hi.2.configured, nofun⟩
    · refine .bind' (.foldEach'
        (I := fun done _ => Between sha256 decoder (normalizeScanOptions given) rollouts done) ?_) fun result => ?_
      · intro candidate hmem done result
        obtain ⟨path, _, rollout, hget, rfl⟩ := mem_selectCandidates.mp hmem
        exact evaluateCandidate_completes g haccepted hget done result
      · refine .bind' (pruneFiles_completes _) fun _ => ?_
        exact .point' (fun _ h => ⟨h.idle, h.follows⟩) (fun _ h => h.follows) (.pure' result fun _ h => h)
  · exact fun _ => (closeDedupIndex_completes (fun _ h => h.1) (fun _ _ h => h) (fun _ h => h.2)).spec.post
      (fun _ _ h => h.2) (fun _ _ h => h.2) fun _ h => h
  · refine .bind' (closeDedupIndex_completes (fun _ h => h.idle) (fun _ _ h => h.follows)
      (fun _ h => h.follows)) fun _ => ?_
    exact .pure' result fun _ h => h

end

/-! ## Every history -/

structure Corpus (Digest : Type) where
  rollouts : Files String Rollout
  index : Tables Digest

inductive Action where
  | grow (path : String) (data : Bytes) (modTimeNanos : Int)
  | evaluate (paths : List String) (wholeCorpus : Bool) (faults : List Fault)

def grown (rollouts : Files String Rollout) (path : String) (data : Bytes) (modTimeNanos : Int) : Option Rollout :=
  match rollouts.get path with
  | none => some ⟨data, modTimeNanos⟩
  | some rollout =>
    if data = [] ∨ modTimeNanos = rollout.modTimeNanos then none
    else some ⟨rollout.content ++ data, modTimeNanos⟩

section
variable {Digest : Type} [DecidableEq Digest] (sha256 : Bytes → Digest) (decoder : Decoder)
  (isSyntaxError : String → Bool) (given : Options)

def Corpus.empty : Corpus Digest := ⟨.empty, Tables.empty⟩

def closedIndex (t : Tables Digest) : DedupIndex Digest := ⟨t, none, ""⟩

def evaluateAt (wholeCorpus : Bool) (rollouts : Files String Rollout) (paths : List String) : Scanner Digest Result :=
  evaluate sha256 decoder isSyntaxError rollouts { given with incremental := true, wholeCorpus } paths

def step (s : Corpus Digest) : Action → Option (Corpus Digest)
  | .grow path data modTimeNanos =>
    (grown s.rollouts path data modTimeNanos).map fun rollout => { s with rollouts := s.rollouts.set path rollout }
  | .evaluate paths wholeCorpus faults =>
    some { s with
      index := (evaluateAt sha256 decoder isSyntaxError given wholeCorpus s.rollouts paths faults
        (closedIndex s.index)).2.1.db }

def GrowsAfterNewline (s : Corpus Digest) : Action → Prop
  | .grow path _ _ => ∀ rollout state, s.rollouts.get path = some rollout → s.index.files.get path = some state →
      state.size = rollout.content.length → rollout.content = [] ∨ rollout.content.getLast? = some Fold.newline
  | .evaluate _ _ _ => True

end

section
variable {Digest : Type} [DecidableEq Digest] {sha256 : Bytes → Digest} {decoder : Decoder}
  {isSyntaxError : String → Bool} {given : Options}

variable {options : Options} {t : Tables Digest}

theorem Recorded.mode {path : String} {rollout : Rollout} (h : Recorded sha256 decoder options t path rollout)
    (incremental wholeCorpus : Bool) :
    Recorded sha256 decoder { options with incremental, wholeCorpus } t path rollout :=
  ⟨h.state, h.shows⟩

theorem Follows.mode {rollouts : Files String Rollout} (h : Follows sha256 decoder options rollouts t)
    (incremental wholeCorpus : Bool) :
    Follows sha256 decoder { options with incremental, wholeCorpus } rollouts t where
  configuration := h.configuration
  unscanned := h.unscanned
  scanned path state hstate := by
    obtain ⟨old, rollout, hget, hold, hbehind⟩ := h.scanned path state hstate
    exact ⟨old, rollout, hget, hold.mode incremental wholeCorpus, hbehind⟩

theorem Follows.empty (options : Options) (rollouts : Files String Rollout) :
    Follows sha256 decoder options rollouts Tables.empty where
  configuration _ h := by cases h
  unscanned _ _ _ _ := rfl
  scanned _ _ h := by cases h

variable {s : Corpus Digest}

theorem Follows.grown {path : String} {data : Bytes} {modTimeNanos : Int} {rollout : Rollout}
    (h : Follows sha256 decoder options s.rollouts s.index) (hends : GrowsAfterNewline s (.grow path data modTimeNanos))
    (hgrown : grown s.rollouts path data modTimeNanos = some rollout) :
    Follows sha256 decoder options (s.rollouts.set path rollout) s.index where
  configuration := h.configuration
  unscanned := h.unscanned
  scanned other state hstate := by
    obtain ⟨old, current, hget, hold, hbehind⟩ := h.scanned other state hstate
    by_cases hp : other = path
    · subst hp
      unfold Scan.grown at hgrown
      rw [hget] at hgrown
      dsimp only at hgrown
      split at hgrown
      · cases hgrown
      · next hlegal =>
        cases hgrown
        have hdata : data ≠ [] := fun hnil => hlegal (.inl hnil)
        refine ⟨old, _, get_set_self _ _ _, hold, hbehind.start.trans (prefix_append _ _), ?_, ?_⟩
        · -- longer than what was scanned
          intro he
          have hle := hbehind.start.length_le
          have hlen := congrArg length he
          rw [length_append] at hlen
          exact absurd (length_eq_zero_iff.mp (by omega)) hdata
        · intro _
          by_cases hsame : old.content = current.content
          · have hsize : state.size = current.content.length := by
              rw [hold.state] at hstate
              cases hstate
              exact congrArg length hsame
            have hlast := hends current state hget hstate hsize
            rw [hsame]
            simpa [endsWithNewline] using hlast
          · exact hbehind.ends hsame
    · exact ⟨old, current, (get_set_ne _ _ hp).trans hget, hold, hbehind⟩

section

variable (g : Grammar decoder isSyntaxError)
include g

section

variable (haccepted : Accepted (normalizeScanOptions given))
include haccepted

theorem step_follows {s' : Corpus Digest} {action : Action}
    (h : Follows sha256 decoder (normalizeScanOptions given) s.rollouts s.index) (hends : GrowsAfterNewline s action)
    (hstep : step sha256 decoder isSyntaxError given s action = some s') :
    Follows sha256 decoder (normalizeScanOptions given) s'.rollouts s'.index := by
  cases action with
  | grow path data modTimeNanos =>
    obtain ⟨rollout, hgrown, rfl⟩ := map_eq_some_iff.mp hstep
    exact h.grown hends hgrown
  | evaluate paths wholeCorpus faults =>
    cases hstep
    have hscan := evaluate_completes sha256 g s.rollouts { given with incremental := true, wholeCorpus } haccepted paths
    have hkeeps := hscan.spec.weaken (fun _ _ hb => hb.follows)
    have hleft := hkeeps.state faults (s := closedIndex s.index) (h.mode true wholeCorpus)
    exact hleft.mode given.incremental given.wholeCorpus

theorem run_follows {actions : List Action}
    (hends : Along (step sha256 decoder isSyntaxError given) GrowsAfterNewline Corpus.empty actions)
    (hrun : runFrom (step sha256 decoder isSyntaxError given) Corpus.empty actions = some s) :
    Follows sha256 decoder (normalizeScanOptions given) s.rollouts s.index :=
  Along.invariant
    (fun _ _ _ h hc hs => step_follows g haccepted h hc hs) actions (Follows.empty _ _) hends hrun

end

end

theorem evaluate_records (sha256 : Bytes → Digest) (g : Grammar decoder isSyntaxError) (given : Options)
    (haccepted : Accepted (normalizeScanOptions given)) {rollouts : Files String Rollout}
    (h : Follows sha256 decoder (normalizeScanOptions given) rollouts t) (paths : List String) :
    ∃ result i, Runs (evaluate sha256 decoder isSyntaxError rollouts given paths) (closedIndex t) result i ∧
      ∀ path ∈ paths, ∀ rollout, rollouts.get path = some rollout →
        Recorded sha256 decoder (normalizeScanOptions given) i.db path rollout := by
  have hscan := evaluate_completes sha256 g rollouts given haccepted paths
  obtain ⟨result, i, hrun⟩ := hscan.returns (closedIndex t) h
  have hpost := hscan.spec [] (closedIndex t) h
  rw [hrun.eq] at hpost
  refine ⟨result, i, hrun, fun path hpath rollout hget => ?_⟩
  exact hpost.settled (candidateOf path rollout) (mem_selectCandidates.mpr ⟨path, hpath, rollout, hget, rfl⟩)
    rollout hget

/-- Incremental scanning equals full scanning. In any history in which rollouts grow
    between two records and scans run, each until it ends or is stopped anywhere, the next
    incremental Evaluate returns, and every rollout it looks at has the same objects, with
    the same counts, and the same saved state as after one Evaluate with an empty index. -/
theorem incremental_equals_full (sha256 : Bytes → Digest) (g : Grammar decoder isSyntaxError)
    (given : Options) (haccepted : Accepted (normalizeScanOptions given)) (actions : List Action)
    (s : Corpus Digest) (hrun : runFrom (step sha256 decoder isSyntaxError given) Corpus.empty actions = some s)
    (hends : Along (step sha256 decoder isSyntaxError given) GrowsAfterNewline Corpus.empty actions)
    (paths : List String) :
    ∃ result i result' j,
      Runs (evaluate sha256 decoder isSyntaxError s.rollouts { given with incremental := true } paths)
        (closedIndex s.index) result i ∧
      Runs (evaluate sha256 decoder isSyntaxError s.rollouts { given with incremental := false } paths)
        (closedIndex Tables.empty) result' j ∧
      ∀ path ∈ paths, ∀ rollout, s.rollouts.get path = some rollout →
        (∃ state, i.db.files.get path = some state ∧ j.db.files.get path = some state) ∧
        ∀ layer object, i.db.rows path layer object = j.db.rows path layer object := by
  have hfollows := run_follows g haccepted hends hrun
  obtain ⟨result, i, hincremental, hi⟩ := evaluate_records sha256 g { given with incremental := true } haccepted
    (hfollows.mode true given.wholeCorpus) paths
  obtain ⟨result', j, hfull, hj⟩ := evaluate_records sha256 g { given with incremental := false } haccepted
    (Follows.empty _ s.rollouts) paths
  refine ⟨result, i, result', j, hincremental, hfull, fun path hpath rollout hget => ⟨?_, ?_⟩⟩
  · exact ⟨_, (hi path hpath rollout hget).state, (hj path hpath rollout hget).state⟩
  · intro layer object
    exact ((hi path hpath rollout hget).shows layer object).trans ((hj path hpath rollout hget).shows layer object).symm

def sampleOptions : Options := ⟨true, true, ⟨true, true, true⟩, 2, 16, ⟨1, 2, 4⟩⟩

def sampleHistory : List Action :=
  [.grow "rollout" [34, 97, 34, 10] 1,
   .evaluate ["rollout"] true [.ok, .ok, .ok, .ok, .ok, .ok, .crash],
   .evaluate ["rollout"] true [],
   .grow "rollout" [34, 98, 99, 34, 10] 2,
   .evaluate ["rollout"] true [.ok, .ok, .ok, .ok, .ok, .ok, .ok, .ok, .fail]]

theorem incremental_equals_full_two_records :
    ∃ s, runFrom (step id quotedDecoder (fun _ => false) sampleOptions) Corpus.empty sampleHistory = some s ∧
      s.rollouts.get "rollout" = some ⟨[34, 97, 34, 10, 34, 98, 99, 34, 10], 2⟩ ∧
      ∃ result i result' j,
        Runs (evaluate id quotedDecoder (fun _ => false) s.rollouts
          { sampleOptions with incremental := true } ["rollout"]) (closedIndex s.index) result i ∧
        Runs (evaluate id quotedDecoder (fun _ => false) s.rollouts
          { sampleOptions with incremental := false } ["rollout"]) (closedIndex Tables.empty) result' j ∧
        ∀ path ∈ ["rollout"], ∀ rollout, s.rollouts.get path = some rollout →
          (∃ state, i.db.files.get path = some state ∧ j.db.files.get path = some state) ∧
          ∀ layer object, i.db.rows path layer object = j.db.rows path layer object := by
  refine ⟨_, rfl, rfl, incremental_equals_full id quotedGrammar sampleOptions ?_ sampleHistory _ rfl ?_ _⟩
  · exact fun _ => ⟨_, rfl⟩
  · refine ⟨nofun, fun s₁ h₁ => ?_⟩
    cases h₁
    refine ⟨trivial, fun s₂ h₂ => ?_⟩
    cases h₂
    refine ⟨trivial, fun s₃ h₃ => ?_⟩
    cases h₃
    -- the rollout that grows ends with the newline of its first record
    refine ⟨fun rollout state hget _ _ => ?_, fun s₄ _ => ⟨trivial, fun _ _ => trivial⟩⟩
    cases hget
    exact .inr rfl

end

end CodexFold.Scan
