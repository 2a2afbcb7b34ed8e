import CodexFold.Foundation.Traces
import CodexFold.Vfs.Operations

/- Readers of a session next to its writer (`session.go`, `handles.go`, `compact.go`).

   `OpenReader` takes the session's state and view under the session's lock, and
   opens and sizes the data file after it has given the lock up. The writer side, one
   operation at a time, appends to the file the state names, copies the session to a
   backing file and goes on there, or compacts it into a new base with an empty delta.

   Any number of readers `i : ι` run next to the writer side, one step at a time. A
   delta only ever grows, and once a copy-on-write or a compaction has switched the
   state it is left alone, so a reader keeps what it was sized at. The exception is an
   append whose write stops half way: it is taken back, and a reader that was sized in
   between reads on in whatever comes next (`reader_sized_in_append`). -/
namespace CodexFold.Vfs.Readers
open Foundation List Option

/-! ## Reading -/

structure ReadHandle where
  base : Bytes
  baseBytes : Nat
  path : DataFile
  backing : Bool
  deltaBytes : Nat
  size : Nat
  deriving DecidableEq, Repr

inductive ReadError where
  | eof
  deriving DecidableEq, Repr

def slice (contents : Bytes) (offset length : Nat) : Bytes := (contents.drop offset).take length

/-- The end of a read that went well: `io.EOF` if there was less than asked for. -/
def ended (length : Nat) (read : Bytes) : Bytes × Option ReadError :=
  (read, if read.length < length then some .eof else none)

/-- The end of `ReadHandle.ReadAt` in the delta, after `fromBase`. -/
def ReadHandle.readDelta (h : ReadHandle) (file : Bytes) (length offset : Nat) (fromBase : Bytes) :
    Bytes × Option ReadError :=
  if fromBase.length < length ∧ h.baseBytes ≤ offset ∧ offset < h.size then
    let need := min (length - fromBase.length) (h.deltaBytes - (offset - h.baseBytes))
    let read := slice file (offset - h.baseBytes) need
    -- the file was cut back: `File.ReadAt` meets its end
    if read.length ≠ need then (fromBase ++ read, some .eof) else ended length (fromBase ++ read)
  else ended length fromBase

/-- `ReadHandle.ReadAt`: what it reads and with which error, when its file holds `file`. -/
def ReadHandle.readAt (h : ReadHandle) (file : Bytes) (length offset : Nat) : Bytes × Option ReadError :=
  if length = 0 then ([], none)
  else if h.size ≤ offset then ([], some .eof)
  else if h.backing then ended length (slice file offset (min length (h.size - offset)))
  else
    let need := if offset < h.baseBytes then min length (h.baseBytes - offset) else 0
    let fromBase := slice h.base offset need
    if fromBase.length ≠ need then (fromBase, some .eof)
    else h.readDelta file length (offset + fromBase.length) fromBase

def readVisible (contents : Bytes) (length offset : Nat) : Bytes × Option ReadError :=
  if length = 0 then ([], none)
  else if contents.length ≤ offset then ([], some .eof)
  else ended length (slice contents offset length)

theorem length_slice (contents : Bytes) (offset length : Nat) :
    (slice contents offset length).length = min length (contents.length - offset) := by
  simp [slice]

theorem slice_append (a b : Bytes) (offset length : Nat) : slice (a ++ b) offset length =
      slice a offset length ++ slice b (offset - a.length) (length - (a.length - offset)) := by
  simp [slice, drop_append, take_append]

theorem slice_of_start {a b : Bytes} (h : a <+: b) {offset length : Nat} (hlen : offset + length ≤ a.length) :
    slice b offset length = slice a offset length := by
  obtain ⟨c, rfl⟩ := h
  have hzero : length - (a.length - offset) = 0 := by omega
  rw [slice_append, hzero]
  simp [slice]

theorem slice_min (a : Bytes) (offset length : Nat) :
    slice a offset (min length (a.length - offset)) = slice a offset length := by
  rw [slice, slice, take_eq_take_iff, length_drop]
  omega

theorem ReadHandle.readAt_eq {h : ReadHandle} {delta file : Bytes} (hbacking : h.backing = false)
    (hbase : h.baseBytes = h.base.length) (hdelta : h.deltaBytes = delta.length)
    (hsize : h.size = h.baseBytes + h.deltaBytes) (hstart : delta <+: file) (length offset : Nat) :
    h.readAt file length offset = readVisible (h.base ++ delta) length offset := by
  unfold readAt readVisible
  rw [length_append, hsize, hbase, hdelta, hbacking]
  by_cases hzero : length = 0
  · simp [hzero]
  by_cases hend : h.base.length + delta.length ≤ offset
  · simp [hzero, hend]
  -- the part in the base is all the base has there
  have hneed : (if offset < h.base.length then min length (h.base.length - offset) else 0) =
      min length (h.base.length - offset) := by
    split <;> omega
  have hlength := length_slice h.base offset length
  simp only [hzero, hend, if_false, Bool.false_eq_true, hneed, slice_min, hlength, ne_eq, not_true_eq_false]
  unfold readDelta
  rw [hsize, hbase, hdelta, slice_append, hlength]
  by_cases hmore : min length (h.base.length - offset) < length ∧
      h.base.length ≤ offset + min length (h.base.length - offset) ∧
      offset + min length (h.base.length - offset) < h.base.length + delta.length
  · -- the rest comes from the delta
    have hat : offset + min length (h.base.length - offset) - h.base.length = offset - h.base.length := by omega
    have hrest : length - min length (h.base.length - offset) = length - (h.base.length - offset) := by omega
    have hcover : slice file (offset - h.base.length)
        (min (length - (h.base.length - offset)) (delta.length - (offset - h.base.length))) = slice delta _ _ :=
      slice_of_start hstart (by omega)
    simp only [hmore, and_self, if_true, hat, hrest, hcover, slice_min, length_slice, ne_eq, not_true_eq_false, if_false]
  · -- nothing is wanted from the delta, or it is empty
    have hnone : slice delta (offset - h.base.length) (length - (h.base.length - offset)) = [] := by
      rw [← length_eq_zero_iff, length_slice]
      omega
    simp only [hmore, if_false, hnone, append_nil]

/-! ## The machine -/

/-- How far one `OpenReader` has come, and the handle it returned. -/
inductive Reader where
  | idle
  | captured (state : SessionState) (view : View)
  | opened (state : SessionState) (view : View)
  | ready (handle : ReadHandle)
  | closed
  deriving DecidableEq, Repr

inductive Activity where
  | idle
  | appending (path : DataFile) (original : Nat) (rest : Bytes)
  | rollingBack (path : DataFile) (original : Nat)
  | copying
  | rewriting (path : DataFile)
  | compacting (created : Bool)
  deriving DecidableEq, Repr

structure State (ι : Type) where
  files : Files DataFile Bytes
  state : SessionState
  view : View
  writer : Activity
  reader : ι → Reader

/-- The steps of `OpenReader` and `ReadHandle.Close`; of `Append`, whose write is
    carried out in pieces; of `ensureBacking` with the write to the backing file that
    follows; and of `Compact`. -/
inductive Action (ι : Type) where
  | capture (i : ι)
  | openFile (i : ι)
  | size (i : ι)
  | failReader (i : ι)
  | closeReader (i : ι)
  | startAppend (data : Bytes)
  | writeSome (count : Nat)
  | finishAppend
  | failAppend
  | rollBack
  | failRollBack
  | startRewrite
  | publishBacking
  | switchToBacking
  | failCopy
  | writeAt (data : Bytes) (offset : Nat)
  | truncate (size : Nat)
  | failRewrite
  | startCompact
  | createDelta
  | switchCompacted (manifest : Manifest)
  | failCompact
  deriving DecidableEq, Repr

section
variable {ι : Type} [DecidableEq ι]
variable {s s' : State ι} {action : Action ι}
variable {state : SessionState}

def State.contents (s : State ι) (path : DataFile) : Bytes := (s.files.get path).getD []

def State.visible (s : State ι) : Bytes :=
  match s.state.backingPath with
  | some path => s.contents path
  | none => s.view.manifest.source ++ s.contents s.state.deltaPath

def State.setReader (s : State ι) (i : ι) (reader : Reader) : State ι :=
  { s with reader := Function.update s.reader i reader }

def State.write (s : State ι) (path : DataFile) (contents : Bytes) (writer : Activity) : State ι :=
  { s with files := s.files.set path contents, writer }

def handleOf (state : SessionState) (view : View) (size : Nat) : ReadHandle where
  base := view.manifest.source
  baseBytes := state.baseBytes
  path := state.activePath
  backing := state.backingPath.isSome
  deltaBytes := if state.backingPath.isSome then 0 else size
  size := if state.backingPath.isSome then size else state.baseBytes + size

def readerStep (s : State ι) : Action ι → Option (State ι)
  | .capture i => if s.reader i = .idle then some (s.setReader i (.captured s.state s.view)) else none
  | .openFile i =>
    match s.reader i with
    | .captured state view =>
      if (s.files.get state.activePath).isSome then some (s.setReader i (.opened state view)) else none
    | _ => none
  | .size i =>
    match s.reader i with
    | .opened state view => some (s.setReader i (.ready (handleOf state view (s.contents state.activePath).length)))
    | _ => none
  | .failReader i =>
    match s.reader i with
    | .captured _ _ | .opened _ _ => some (s.setReader i .closed)
    | _ => none
  | .closeReader i =>
    match s.reader i with
    | .ready _ => some (s.setReader i .closed)
    | _ => none
  | _ => none

def writerStep (s : State ι) : Action ι → Option (State ι)
  | .startAppend data =>
    match s.writer, s.files.get s.state.activePath with
    | .idle, some contents => some { s with writer := .appending s.state.activePath contents.length data }
    | _, _ => none
  | .writeSome count =>
    match s.writer with
    | .appending path original rest =>
      some (s.write path (s.contents path ++ rest.take count) (.appending path original (rest.drop count)))
    | _ => none
  | .finishAppend =>
    match s.writer with
    | .appending _ _ [] => some { s with writer := .idle }
    | _ => none
  | .failAppend =>
    match s.writer with
    | .appending path original (_ :: _) =>
      -- nothing was written, so there is nothing to take back
      if (s.contents path).length = original then some { s with writer := .idle }
      else some { s with writer := .rollingBack path original }
    | _ => none
  | .rollBack =>
    match s.writer with
    | .rollingBack path original => some (s.write path ((s.contents path).take original) .idle)
    | _ => none
  | .failRollBack =>
    match s.writer with
    | .rollingBack _ _ => some { s with writer := .idle }
    | _ => none
  | .startRewrite =>
    match s.writer, s.state.backingPath with
    | .idle, some path => some { s with writer := .rewriting path }
    | .idle, none => some { s with writer := .copying }
    | _, _ => none
  | .publishBacking =>
    match s.writer with
    | .copying => some (s.write (.backing (s.state.generation + 1)) s.visible .copying)
    | _ => none
  | .switchToBacking =>
    match s.writer with
    | .copying => some { s with
        state := s.state.withBacking (.backing (s.state.generation + 1))
        writer := .rewriting (.backing (s.state.generation + 1)) }
    | _ => none
  | .failCopy =>
    match s.writer with
    | .copying => some { s with writer := .idle }
    | _ => none
  | .writeAt data offset =>
    match s.writer with
    | .rewriting path => some (s.write path (overwriteAt (s.contents path) offset data) .idle)
    | _ => none
  | .truncate size =>
    match s.writer with
    | .rewriting path => some (s.write path (resize (s.contents path) size) .idle)
    | _ => none
  | .failRewrite =>
    match s.writer with
    | .rewriting _ => some { s with writer := .idle }
    | _ => none
  | .startCompact => if s.writer = .idle then some { s with writer := .compacting false } else none
  | .createDelta =>
    -- the next delta is created exclusively
    if s.writer = .compacting false ∧ s.files.get (.deltaOf (s.state.generation + 1)) = none then
      some (s.write (.deltaOf (s.state.generation + 1)) [] (.compacting true))
    else none
  | .switchCompacted manifest =>
    if s.writer = .compacting true ∧ manifest.source = s.visible then
      some { s with
        state := s.state.compacted manifest s.visible
        view := ⟨.generation (s.state.generation + 1), manifest⟩
        writer := .idle }
    else none
  | .failCompact =>
    match s.writer with
    | .compacting _ => some { s with writer := .idle }
    | _ => none
  | _ => none

def step (s : State ι) (action : Action ι) : Option (State ι) :=
  (readerStep s action).or (writerStep s action)

/-! ## What a step can do -/

def isDelta : DataFile → Bool
  | .delta | .deltaOf _ => true
  | _ => false

def Working (s : State ι) : Activity → Prop
  | .idle => True
  | .appending path _ _ | .rollingBack path _ => path = s.state.activePath ∧ (s.files.get path).isSome = true
  | .copying => s.state.backingPath = none
  | .rewriting path => isDelta path = false
  | .compacting created => created = true →
    s.state.deltaPath ≠ .deltaOf (s.state.generation + 1) ∧
      (s.files.get (.deltaOf (s.state.generation + 1))).isSome = true

/-- A session that is being served: its delta is there, and its view is the base its
    state names. -/
structure Serves (s : State ι) : Prop where
  delta : (s.files.get s.state.deltaPath).isSome = true
  deltaName : isDelta s.state.deltaPath = true
  backingName : ∀ path, s.state.backingPath = some path → isDelta path = false
  base : s.state.baseBytes = s.view.manifest.source.length
  working : Working s s.writer

inductive Change (s : State ι) (action : Action ι) (s' : State ι) : Prop
  /-- Nothing, except that a new delta may appear. -/
  | aside (hstate : s'.state = s.state) (hview : s'.view = s.view)
      (hfiles : ∀ p, isDelta p = true → (s.files.get p).isSome = true → s'.files.get p = s.files.get p)
      (hcreated : s'.writer = .compacting true →
        s.writer = .compacting true ∨ s.files.get (.deltaOf (s.state.generation + 1)) = none)
  /-- The active file grows. -/
  | wrote (more : Bytes) (hstate : s'.state = s.state) (hview : s'.view = s.view)
      (hfiles : s'.files = s.files.set s.state.activePath (s.contents s.state.activePath ++ more))
      (hwriter : s'.writer ≠ .compacting true)
  /-- An append is taken back. -/
  | cut (original : Nat) (hrollBack : action = .rollBack)
      (hwas : s.writer = .rollingBack s.state.activePath original) (hstate : s'.state = s.state) (hview : s'.view = s.view)
      (hfiles : s'.files = s.files.set s.state.activePath ((s.contents s.state.activePath).take original))
      (hwriter : s'.writer ≠ .compacting true)
  /-- The session moves to a backing file. -/
  | copied (hnone : s.state.backingPath = none) (hfiles : s'.files = s.files) (hview : s'.view = s.view)
      (hstate : s'.state = s.state.withBacking (.backing (s.state.generation + 1)))
      (hwriter : s'.writer ≠ .compacting true)
  /-- The session moves to a new base and an empty delta. -/
  | compacted (manifest : Manifest) (hwas : s.writer = .compacting true) (hsource : manifest.source = s.visible)
      (hfiles : s'.files = s.files) (hstate : s'.state = s.state.compacted manifest s.visible)
      (hview : s'.view = ⟨.generation (s.state.generation + 1), manifest⟩) (hwriter : s'.writer ≠ .compacting true)

omit [DecidableEq ι] in
theorem Change.idle {writer : Activity} (h : writer ≠ .compacting true) :
    Change s action { s with writer } :=
  .aside rfl rfl (fun _ _ _ => rfl) fun he => absurd he h

omit [DecidableEq ι] in
theorem Change.other {path : DataFile} {contents : Bytes} {writer : Activity}
    (hpath : isDelta path → s.files.get path = none) (hcreated : writer = .compacting true →
      s.writer = .compacting true ∨ s.files.get (.deltaOf (s.state.generation + 1)) = none) :
    Change s action (s.write path contents writer) := by
  refine .aside rfl rfl (fun p hp hsome => ?_) hcreated
  have hne : p ≠ path := by
    rintro rfl
    rw [hpath hp] at hsome
    cases hsome
  simp [State.write, hne]

omit [DecidableEq ι] in
theorem writerStep_change (h : Serves s) (hs : writerStep s action = some s') :
    Change s action s' ∧ Working s' s'.writer ∧ s'.reader = s.reader := by
  have hw := h.working
  cases action with
  | startAppend data =>
    cases hwriter : s.writer <;> cases hfile : s.files.get s.state.activePath <;>
      simp only [writerStep, hwriter, hfile] at hs <;> cases hs
    exact ⟨.idle (by simp), ⟨rfl, by simp [hfile]⟩, rfl⟩
  | writeSome count =>
    cases hwriter : s.writer <;> simp only [writerStep, hwriter, reduceCtorEq, some.injEq] at hs
    case appending path original rest =>
      rw [hwriter] at hw
      obtain ⟨rfl, _⟩ := hw
      subst hs
      exact ⟨.wrote (rest.take count) rfl rfl rfl (by simp [State.write]), ⟨rfl, by simp [State.write]⟩, rfl⟩
  | finishAppend =>
    simp only [writerStep] at hs
    split at hs
    · cases hs
      exact ⟨.idle (by simp), trivial, rfl⟩
    · cases hs
  | failAppend =>
    simp only [writerStep] at hs
    split at hs
    · rename_i path original _ _ hwriter
      rw [hwriter] at hw
      split at hs
      · cases hs
        exact ⟨.idle (by simp), trivial, rfl⟩
      · cases hs
        exact ⟨.idle (by simp), hw, rfl⟩
    · cases hs
  | rollBack =>
    cases hwriter : s.writer <;> simp only [writerStep, hwriter, reduceCtorEq, some.injEq] at hs
    case rollingBack path original =>
      rw [hwriter] at hw
      obtain ⟨rfl, _⟩ := hw
      subst hs
      exact ⟨.cut original rfl hwriter rfl rfl rfl (by simp [State.write]), trivial, rfl⟩
  | failRollBack | failCopy | failRewrite | failCompact =>
    cases hwriter : s.writer <;> simp only [writerStep, hwriter] at hs <;> cases hs
    exact ⟨.idle (by simp), trivial, rfl⟩
  | startRewrite =>
    cases hwriter : s.writer <;> cases hbacking : s.state.backingPath <;>
      simp only [writerStep, hwriter, hbacking] at hs <;> cases hs
    · exact ⟨.idle (by simp), hbacking, rfl⟩
    · exact ⟨.idle (by simp), h.backingName _ hbacking, rfl⟩
  | publishBacking =>
    cases hwriter : s.writer <;> simp only [writerStep, hwriter] at hs <;> cases hs
    rw [hwriter] at hw
    exact ⟨.other nofun nofun, hw, rfl⟩
  | switchToBacking =>
    cases hwriter : s.writer <;> simp only [writerStep, hwriter] at hs <;> cases hs
    rw [hwriter] at hw
    exact ⟨.copied hw rfl rfl rfl (by simp), rfl, rfl⟩
  | writeAt data offset | truncate size =>
    cases hwriter : s.writer <;> simp only [writerStep, hwriter] at hs <;> cases hs
    rw [hwriter] at hw
    exact ⟨.other (fun hp => absurd hp (by simp [show isDelta _ = false from hw])) nofun, trivial, rfl⟩
  | startCompact =>
    obtain ⟨_, rfl⟩ := guard_eq_some.mp hs
    exact ⟨.idle (by simp), nofun, rfl⟩
  | createDelta =>
    obtain ⟨⟨_, hnone⟩, rfl⟩ := guard_eq_some.mp hs
    refine ⟨.other (fun _ => hnone) (fun _ => .inr hnone), fun _ => ⟨fun he => ?_, by simp [State.write]⟩, rfl⟩
    -- the session's own delta is there, the new one was not
    have hsame : s.state.deltaPath = .deltaOf (s.state.generation + 1) := he
    have hdelta := h.delta
    rw [hsame, hnone] at hdelta
    cases hdelta
  | switchCompacted manifest =>
    obtain ⟨⟨hwriter, hsource⟩, rfl⟩ := guard_eq_some.mp hs
    exact ⟨.compacted manifest hwriter hsource rfl rfl rfl (by simp), trivial, rfl⟩
  | _ => simp [writerStep] at hs

inductive Advances : Reader → Reader → Prop
  | same (r : Reader) : Advances r r
  | start (r : Reader) : Advances .idle r
  | openFile (state : SessionState) (view : View) : Advances (.captured state view) (.opened state view)
  | size (state : SessionState) (view : View) (handle : ReadHandle) : Advances (.opened state view) (.ready handle)
  | close (r : Reader) : Advances r .closed

theorem Advances.of_closed {r : Reader} (h : Advances .closed r) : r = .closed := by
  cases h <;> rfl

theorem readerStep_advances (hs : readerStep s action = some s') :
    ∃ j r, Advances (s.reader j) r ∧ s' = s.setReader j r := by
  cases action <;> simp only [readerStep, reduceCtorEq] at hs
  case capture j =>
    obtain ⟨hidle, rfl⟩ := guard_eq_some.mp hs
    exact ⟨j, _, hidle ▸ .start _, rfl⟩
  case openFile j =>
    split at hs
    case h_1 state view hj =>
      obtain ⟨_, rfl⟩ := guard_eq_some.mp hs
      exact ⟨j, _, hj ▸ .openFile _ _, rfl⟩
    case h_2 => cases hs
  case size j =>
    split at hs
    case h_1 state view hj =>
      cases hs
      exact ⟨j, _, hj ▸ .size _ _ _, rfl⟩
    case h_2 => cases hs
  case failReader j | closeReader j =>
    split at hs <;> cases hs
    all_goals exact ⟨j, _, .close _, rfl⟩

theorem step_change (h : Serves s) (hs : step s action = some s') : Change s action s' ∧ Working s' s'.writer := by
  rcases or_eq_some_iff.mp hs with hreader | ⟨_, hwriter⟩
  · obtain ⟨j, r, _, rfl⟩ := readerStep_advances hreader
    exact ⟨.aside rfl rfl (fun _ _ _ => rfl) Or.inl, h.working⟩
  · obtain ⟨hchange, hworking, _⟩ := writerStep_change h hwriter
    exact ⟨hchange, hworking⟩

variable {p : DataFile}

omit [DecidableEq ι] in
theorem Serves.activePath_ne (h : Serves s) (hp : isDelta p)
    (hother : s.state.deltaPath = p → s.state.backingPath.isSome) : s.state.activePath ≠ p := by
  unfold SessionState.activePath
  cases hb : s.state.backingPath with
  | none =>
    intro he
    have := hother he
    rw [hb] at this
    cases this
  | some path =>
    rintro rfl
    rw [h.backingName _ hb] at hp
    cases hp

theorem step_serves (h : Serves s) (hs : step s action = some s') : Serves s' := by
  obtain ⟨hchange, hworking⟩ := step_change h hs
  cases hchange with
  | aside hstate hview hfiles _ =>
    refine ⟨?_, by rw [hstate]; exact h.deltaName, by rw [hstate]; exact h.backingName, ?_, hworking⟩
    · rw [hstate, hfiles _ h.deltaName h.delta]
      exact h.delta
    · rw [hstate, hview]
      exact h.base
  | wrote more hstate hview hfiles _ | cut original _ _ hstate hview hfiles _ =>
    refine ⟨?_, by rw [hstate]; exact h.deltaName, by rw [hstate]; exact h.backingName, ?_, hworking⟩
    · rw [hstate, hfiles, get_set]
      split
      · rfl
      · exact h.delta
    · rw [hstate, hview]
      exact h.base
  | copied _ hfiles hview hstate _ =>
    refine ⟨by rw [hstate, hfiles]; exact h.delta, by rw [hstate]; exact h.deltaName, ?_, ?_, hworking⟩
    · rw [hstate]
      rintro path he
      cases some.inj he
      rfl
    · rw [hstate, hview]
      exact h.base
  | compacted manifest hwas hsource hfiles hstate hview _ =>
    have hw := h.working
    rw [hwas] at hw
    refine ⟨by rw [hstate, hfiles]; exact (hw rfl).2, by rw [hstate]; rfl, ?_, ?_, hworking⟩
    · rw [hstate]
      exact nofun
    · rw [hstate, hview]
      show s.visible.length = manifest.source.length
      rw [hsource]

theorem step_reader (h : Serves s) (hs : step s action = some s') (i : ι) : Advances (s.reader i) (s'.reader i) := by
  rcases or_eq_some_iff.mp hs with hreader | ⟨_, hwriter⟩
  · obtain ⟨j, r, hr, rfl⟩ := readerStep_advances hreader
    by_cases hij : i = j
    · subst hij
      simpa [State.setReader] using hr
    · simpa [State.setReader, hij] using Advances.same _
  · rw [(writerStep_change h hwriter).2.2]
    exact .same _

/-! ## The moment a reader shows -/

structure Frozen (p : DataFile) (s : State ι) : Prop where
  there : (s.files.get p).isSome = true
  left : s.state.deltaPath = p → s.state.backingPath.isSome = true
  notCreated : s.writer = .compacting true → p ≠ .deltaOf (s.state.generation + 1)

/-- Since a reader took `state` and `view` in `s₀`: the session still has them, or the
    delta is as it was at some moment in between. -/
def Since (s₀ : State ι) (state : SessionState) (view : View) (done : List (Action ι)) (s : State ι) : Prop :=
  (s.state = state ∧ s.view = view) ∨
    (Frozen state.deltaPath s ∧ ∃ before rest m, done = before ++ rest ∧ runFrom step s₀ before = some m ∧
      m.visible = view.manifest.source ++ s.contents state.deltaPath)

omit [DecidableEq ι] in
theorem contents_congr (h : s'.files.get p = s.files.get p) : s'.contents p = s.contents p := by
  unfold State.contents
  rw [h]

omit [DecidableEq ι] in
theorem Frozen.step (h : Serves s) (hp : isDelta p) (hf : Frozen p s) (hchange : Change s action s') :
    Frozen p s' ∧ s'.files.get p = s.files.get p := by
  have hactive := (h.activePath_ne hp hf.left).symm
  cases hchange with
  | aside hstate _ hfiles hcreated =>
    have hsame := hfiles p hp hf.there
    refine ⟨⟨by rw [hsame]; exact hf.there, by rw [hstate]; exact hf.left, fun hw => ?_⟩, hsame⟩
    rw [hstate]
    rcases hcreated hw with hwas | hnone
    · exact hf.notCreated hwas
    · rintro rfl
      have := hf.there
      rw [hnone] at this
      cases this
  | wrote more hstate _ hfiles hwriter | cut original _ _ hstate _ hfiles hwriter =>
    have hsame : s'.files.get p = s.files.get p := by rw [hfiles, get_set_ne _ _ hactive]
    exact ⟨⟨by rw [hsame]; exact hf.there, by rw [hstate]; exact hf.left, fun hw => absurd hw hwriter⟩, hsame⟩
  | copied _ hfiles _ hstate hwriter =>
    refine ⟨⟨by rw [hfiles]; exact hf.there, fun _ => ?_, fun hw => absurd hw hwriter⟩, by rw [hfiles]⟩
    rw [hstate]
    rfl
  | compacted manifest hwas _ hfiles hstate _ hwriter =>
    refine ⟨⟨by rw [hfiles]; exact hf.there, fun he => ?_, fun hw => absurd hw hwriter⟩, by rw [hfiles]⟩
    rw [hstate] at he
    exact absurd he.symm (hf.notCreated hwas)

variable {view : View}

theorem since_step {s₀ : State ι} {done : List (Action ι)} (hnone : state.backingPath = none)
    (hdelta : isDelta state.deltaPath) (h : Serves s) (hdone : runFrom step s₀ done = some s)
    (hsince : Since s₀ state view done s) (hs : step s action = some s') :
    Since s₀ state view (done ++ [action]) s' := by
  obtain ⟨hchange, _⟩ := step_change h hs
  rcases hsince with ⟨rfl, rfl⟩ | ⟨hf, before, rest, m, rfl, hm, hvisible⟩
  · -- the session still has the state: it keeps it, or this is the moment
    have hnow : s.visible = s.view.manifest.source ++ s.contents s.state.deltaPath := by simp [State.visible, hnone]
    cases hchange with
    | aside hstate hview _ _ | wrote _ hstate hview _ _ | cut _ _ _ hstate hview _ _ => exact .inl ⟨hstate, hview⟩
    | copied _ hfiles _ hstate hwriter =>
      refine .inr ⟨⟨by rw [hfiles]; exact h.delta, fun _ => by rw [hstate]; rfl, fun hw => absurd hw hwriter⟩, ?_⟩
      refine ⟨done, [action], s, rfl, hdone, ?_⟩
      rw [hnow, contents_congr (by rw [hfiles])]
    | compacted manifest hwas _ hfiles hstate _ hwriter =>
      have hw := h.working
      rw [hwas] at hw
      refine .inr ⟨⟨by rw [hfiles]; exact h.delta, fun he => ?_, fun hw => absurd hw hwriter⟩, ?_⟩
      · rw [hstate] at he
        exact absurd he.symm (hw rfl).1
      · refine ⟨done, [action], s, rfl, hdone, ?_⟩
        rw [hnow, contents_congr (by rw [hfiles])]
  · obtain ⟨hf', hsame⟩ := hf.step h hdelta hchange
    refine .inr ⟨hf', before, rest ++ [action], m, by simp, hm, ?_⟩
    rw [hvisible, contents_congr hsame]

/-! ## What a reader keeps -/

/-- An append is only taken back when no open reader of its file was sized in it. -/
def Unseen (s : State ι) (action : Action ι) : Prop :=
  action = .rollBack → ∀ path original, s.writer = .rollingBack path original →
    ∀ i handle, s.reader i = .ready handle → handle.path = path → handle.deltaBytes ≤ original

def Kept (i : ι) (handle : ReadHandle) (delta : Bytes) (s : State ι) : Prop :=
  s.reader i = .closed ∨
    (s.reader i = .ready handle ∧ ∃ contents, s.files.get handle.path = some contents ∧ delta <+: contents)

variable {i : ι}

theorem kept_step {handle : ReadHandle} {delta : Bytes} (hpath : isDelta handle.path)
    (hbytes : handle.deltaBytes = delta.length) (h : Serves s) (hunseen : Unseen s action) (hk : Kept i handle delta s)
    (hs : step s action = some s') : Kept i handle delta s' := by
  have hreader := step_reader h hs i
  rcases hk with hclosed | ⟨hready, contents, hfile, hstart⟩
  · rw [hclosed] at hreader
    exact .inl hreader.of_closed
  · rw [hready] at hreader
    cases hr : s'.reader i with
    | closed => exact .inl hr
    | ready handle' =>
      have hsame : handle' = handle := by
        rw [hr] at hreader
        cases hreader
        rfl
      subst hsame
      refine .inr ⟨hr, ?_⟩
      have hcontents : s.contents handle'.path = contents := by simp [State.contents, hfile]
      cases (step_change h hs).1 with
      | aside _ _ hfiles _ =>
        rw [hfiles _ hpath (by simp [hfile])]
        exact ⟨contents, hfile, hstart⟩
      | wrote more _ _ hfiles _ =>
        rw [hfiles, get_set]
        by_cases hactive : handle'.path = s.state.activePath
        · rw [if_pos hactive, ← hactive, hcontents]
          exact ⟨_, rfl, hstart.trans (prefix_append _ _)⟩
        · rw [if_neg hactive]
          exact ⟨contents, hfile, hstart⟩
      | cut original haction hwas _ _ hfiles _ =>
        rw [hfiles, get_set]
        by_cases hactive : handle'.path = s.state.activePath
        · rw [if_pos hactive, ← hactive, hcontents]
          have hle := hunseen haction _ original hwas i handle' hready hactive
          exact ⟨_, rfl, prefix_take_iff.mpr ⟨hstart, by omega⟩⟩
        · rw [if_neg hactive]
          exact ⟨contents, hfile, hstart⟩
      | copied _ hfiles _ _ _ | compacted _ _ _ hfiles _ _ _ =>
        rw [hfiles]
        exact ⟨contents, hfile, hstart⟩
    | _ =>
      rw [hr] at hreader
      cases hreader

def Took (i : ι) (state : SessionState) (view : View) (s : State ι) : Prop :=
  match s.reader i with
  | .idle => False
  | .captured state' view' | .opened state' view' => state' = state ∧ view' = view
  | .ready _ | .closed => True

theorem took_step (h : Serves s) (ht : Took i state view s) (hs : step s action = some s') : Took i state view s' := by
  have hreader := step_reader h hs i
  unfold Took at ht ⊢
  generalize s.reader i = r at ht hreader
  generalize s'.reader i = r' at hreader ⊢
  cases hreader with
  | same r => exact ht
  | start r => exact ht.elim
  | openFile => exact ht
  | size | close => trivial

theorem exists_moment {s₁ s₂ : State ι} {during : List (Action ι)} (h : Serves s₁) (hnone : s₁.state.backingPath = none)
    (htook : Took i s₁.state s₁.view s₁) (hrun : runFrom step s₁ during = some s₂) :
    Serves s₂ ∧ Took i s₁.state s₁.view s₂ ∧ (s₂.files.get s₁.state.deltaPath).isSome ∧
      ∃ first rest m, during = first ++ rest ∧ runFrom step s₁ first = some m ∧
        m.visible = s₁.view.manifest.source ++ s₂.contents s₁.state.deltaPath := by
  obtain ⟨h₂, ht₂, hsince⟩ := Along.history
    (I := fun done s => Serves s ∧ Took i s₁.state s₁.view s ∧ Since s₁ s₁.state s₁.view done s)
    (fun _ _ _ _ hdone hi _ hs => ⟨step_serves hi.1 hs, took_step hi.1 hi.2.1 hs,
      since_step hnone h.deltaName hi.1 hdone hi.2.2 hs⟩)
    during [] rfl ⟨h, htook, .inl ⟨rfl, rfl⟩⟩ (Along.of_forall during fun _ _ _ => trivial) hrun
  refine ⟨h₂, ht₂, ?_⟩
  rcases hsince with ⟨hstate, hview⟩ | ⟨hf, first, rest, m, hsplit, hm, hvisible⟩
  · refine ⟨by rw [← hstate]; exact h₂.delta, during, [], s₂, by simp, hrun, ?_⟩
    simp [State.visible, hstate, hview, hnone]
  · exact ⟨hf.there, first, rest, m, hsplit, hm, hvisible⟩

theorem sized_reads {s₂ s₂' s₃ : State ι} {after : List (Action ι)} {handle : ReadHandle} (h : Serves s₂)
    (hopened : s₂.reader i = .opened state view) (hnone : state.backingPath = none)
    (hname : isDelta state.deltaPath) (hbase : state.baseBytes = view.manifest.source.length)
    (hthere : (s₂.files.get state.deltaPath).isSome) (hsize : step s₂ (.size i) = some s₂')
    (hrun : runFrom step s₂' after = some s₃) (hunseen : Along step Unseen s₂' after)
    (hopen : s₃.reader i = .ready handle) (length offset : Nat) :
    handle.readAt (s₃.contents handle.path) length offset =
      readVisible (view.manifest.source ++ s₂.contents state.deltaPath) length offset := by
  have hpath : state.activePath = state.deltaPath := by simp [SessionState.activePath, hnone]
  obtain ⟨found, hfound⟩ := isSome_iff_exists.mp hthere
  have hcontents : s₂.contents state.deltaPath = found := by simp [State.contents, hfound]
  have h₂' := step_serves h hsize
  -- right after it was sized, the delta is what the handle covers
  have hkept : Kept i (handleOf state view found.length) found s₂' := by
    simp only [step, readerStep, writerStep, hopened, or_none, some.injEq] at hsize
    subst hsize
    refine .inr ⟨by simp [State.setReader, hpath, hcontents], found, ?_, prefix_rfl⟩
    show s₂.files.get state.activePath = some found
    rw [hpath, hfound]
  have hlater : Serves s₃ ∧ Kept i (handleOf state view found.length) found s₃ := by
    refine Along.invariant (I := fun s => Serves s ∧ Kept i (handleOf state view found.length) found s) ?_ after
      ⟨h₂', hkept⟩ hunseen hrun
    intro s action s' hi hu hs
    exact ⟨step_serves hi.1 hs, kept_step (by simpa [handleOf, hpath] using hname) (by simp [handleOf, hnone]) hi.1 hu hi.2 hs⟩
  rcases hlater.2 with hclosed | ⟨hready, contents, hfile, hstart⟩
  · rw [hclosed] at hopen
    cases hopen
  · rw [hready] at hopen
    cases hopen
    have hnow : s₃.contents (handleOf state view found.length).path = contents := by simp [State.contents, hfile]
    rw [hnow, hcontents]
    exact ReadHandle.readAt_eq (by simp [handleOf, hnone]) hbase (by simp [handleOf, hnone]) (by simp [handleOf, hnone])
      hstart length offset

end

def sampleState : State Unit where
  files := Files.empty.set .delta [3]
  state := SessionOptions.sample.initialState
  view := ⟨SessionOptions.sample.manifestPath, SessionOptions.sample.manifest⟩
  writer := .idle
  reader _ := .idle

theorem sampleState_serves : Serves sampleState :=
  ⟨rfl, rfl, nofun, rfl, trivial⟩

def sampleCaptured : State Unit := sampleState.setReader () (.captured sampleState.state sampleState.view)

def sizedInAppend : List (Action Unit) := [.openFile (), .startAppend [4, 5], .writeSome 1]

def rewritten : List (Action Unit) :=
  [.writeSome 1, .finishAppend, .startRewrite, .publishBacking, .switchToBacking, .writeAt [9] 0]

def takenBack : List (Action Unit) := [.failAppend, .rollBack, .startAppend [9], .writeSome 1, .finishAppend]

end CodexFold.Vfs.Readers
