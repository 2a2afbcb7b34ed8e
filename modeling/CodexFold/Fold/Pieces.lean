import CodexFold.Fold.Fold

/- The pieces a rollout is cut into.

   Where Fold cuts a rollout depends on its bytes and the settings, except for one
   decision: whether a record the index calls a duplicate is worth an object of its
   own is asked of the store. `pieces` is the segmentation without the store, with
   those decisions given. `segment_spec` carries a statement about the parts stored
   so far, and the pieces they come from, through the loop of Fold. -/
namespace CodexFold.Fold
open Foundation JsonRaw Cdc

/-- Where the segmentation stands: as `Assembly`, with the pieces in place of what
    was stored of them. -/
structure Cutting where
  chunker : Chunker
  pieces : List Bytes
  line : Bytes
  oversized : Bool

namespace Cutting

def keep (pieces : List Bytes) (data : Bytes) : List Bytes := pieces ++ [data]

def write (k : Cutting) (data : Bytes) : Cutting :=
  let r := k.chunker.write (M := Id) keep k.pieces data
  { k with chunker := r.1, pieces := r.2 }

def finish (k : Cutting) : Cutting :=
  let r := k.chunker.finish (M := Id) keep k.pieces
  { k with chunker := r.1, pieces := r.2 }

def take (k : Cutting) (data : Bytes) : Cutting := { k with pieces := keep k.pieces data }

def fields (line : Bytes) : Cutting → Nat → List StringSpan → Cutting
  | k, cursor, [] => k.write (line.drop cursor)
  | k, cursor, span :: rest =>
    fields line ((k.write (slice line cursor span.start)).finish.take (slice line span.start span.stop))
      span.stop rest

end Cutting

section
variable {Digest : Type} [DecidableEq Digest] (content : Content Digest) (decoder : Decoder)
  (options : FoldOptions Digest)

def promotable (line : Bytes) : Bool :=
  options.recordIndex.any (fun isDuplicateRecord =>
      decide ((line.length : Int) ≥ options.recordThreshold) && isDuplicateRecord (content.sha256 line) line.length) &&
    match planRecordComponents decoder options line with
    | .error _ => false
    | .ok components => decide (components.length > 1)

namespace Cutting

variable (k : Cutting)

def wholeLine (promote : Bool) (line : Bytes) : Cutting :=
  if promote then k.finish.take line
  else
    match findStringSpans decoder line options.fieldThreshold with
    | .error _ => k.write line
    | .ok spans => fields line k 0 spans

def fragment (data : Bytes) : Cutting :=
  if data = [] then k
  else if k.oversized then k.write data
  else if ((k.line.length + data.length : Nat) : Int) > options.maxJSONLineBytes then
    { (k.write k.line).write data with line := [], oversized := true }
  else { k with line := k.line ++ data }

def closeLine (promote : Bool) : Cutting :=
  if k.oversized then { k with line := [], oversized := options.isOpaque }
  else
    { k.wholeLine decoder options (promote && promotable content decoder options k.line) k.line with
      line := [], oversized := options.isOpaque }

def closeInput (promote : Bool) : Cutting :=
  if k.oversized || k.line = [] then k else k.closeLine content decoder options promote

def cut : Nat → List Bool → Cutting → Bytes → List Bytes
  | 0, _, k, _ => k.pieces
  | fuel + 1, promotions, k, rest =>
    let (data, status, rest) := readSlice rest
    let k := k.fragment options data
    match status with
    | .delim => cut fuel promotions.tail (k.closeLine content decoder options (promotions.headD false)) rest
    | .bufferFull => cut fuel promotions k rest
    | .eof => (k.closeInput content decoder options (promotions.headD false)).finish.pieces

end Cutting

def pieces (promotions : List Bool) (source : Bytes) : List Bytes :=
  match new options.cdc with
  | .error _ => []
  | .ok chunker =>
    Cutting.cut content decoder options (source.length + 1) promotions
      { chunker, pieces := [], line := [], oversized := options.isOpaque } source

end

/-! ## What the segmentation keeps

   Two steps decide it: storing a part, and asking what storing some bytes would
   cost. `PartInvariant` collects what is needed of them for a statement `I` about
   the progress, the pieces so far and the store; `E` is what an interruption
   leaves. -/

section
variable {Digest : Type} [DecidableEq Digest] {content : Content Digest} {decoder : Decoder}
  {options : FoldOptions Digest}

/-- `I` survives every step of a segmentation. -/
structure PartInvariant (content : Content Digest) (options : FoldOptions Digest)
    (I : Progress Digest → List Bytes → Store Digest → Prop) (E : Store Digest → Prop) : Prop where
  append : ∀ kind path p pieces data, Spec (I p pieces) (appendPart content options kind path p data)
    (fun q => I q (Cutting.keep pieces data)) (fun _ => E) E
  plan : ∀ p pieces data, Spec (I p pieces) (put content p.store data false)
    (fun r => I { p with store := r.2.2 } pieces) (fun _ => E) E
  other : ∀ p q pieces s, q.store = p.store → q.parts = p.parts → I p pieces s → I q pieces s
  left : ∀ p pieces s, I p pieces s → E s

def Cutting.assembly (k : Cutting) (p : Progress Digest) : Assembly Digest :=
  { chunker := k.chunker, progress := p, line := k.line, oversized := k.oversized }

variable {I : Progress Digest → List Bytes → Store Digest → Prop} {E : Store Digest → Prop}

abbrev Reaches (I : Progress Digest → List Bytes → Store Digest → Prop) (k : Cutting)
    (r : Chunker × Progress Digest) (s : Store Digest) : Prop :=
  ∃ p, r = (k.chunker, p) ∧ I p k.pieces s

section
variable (hI : PartInvariant content options I E)
include hI

theorem write_spec (k : Cutting) (p : Progress Digest) (data : Bytes) :
    SpecOr (I p k.pieces) (k.chunker.write (emitResidual content options) p data) (Reaches I (k.write data)) E :=
  Chunker.write_spec (fun p pieces data => hI.append .residual "" p pieces data) data k.chunker p k.pieces

theorem finish_spec (k : Cutting) (p : Progress Digest) :
    SpecOr (I p k.pieces) (k.chunker.finish (emitResidual content options) p) (Reaches I k.finish) E :=
  Chunker.finish_spec (fun p pieces data => hI.append .residual "" p pieces data) k.chunker p k.pieces

theorem appendFields_spec (line : Bytes) : ∀ (spans : List StringSpan) (k : Cutting)
    (p : Progress Digest) (cursor : Nat),
    SpecOr (I p k.pieces) (appendFields content options line k.chunker p cursor spans)
      (Reaches I (Cutting.fields line k cursor spans)) E
  | [], k, p, _ => write_spec hI k p _
  | span :: rest, k, p, cursor => by
    refine .bindAs (write_spec hI k p _) fun p₁ => .bindAs (finish_spec hI _ p₁) fun p₂ => ?_
    refine .bind' (hI.append _ _ p₂ _ _) fun p₃ => ?_
    exact appendFields_spec line rest ((k.write _).finish.take _) p₃ _

theorem plannedStorageCost_spec (p : Progress Digest) (pieces : List Bytes) : ∀ (parts : List PlannedPart)
    (store : ObjectStore Digest) (total : Nat),
    SpecOr (I { p with store } pieces) (plannedStorageCost content options store total parts)
      (fun r => I { p with store := r.2 } pieces) E
  | [], _, _ => .pure' _ fun _ h => h
  | part :: rest, store, total => by
    refine .bind' (hI.plan { p with store } pieces part.data) fun r => ?_
    refine SpecOr.after (hI.left _ _) (Keeps.read' _) fun reused => ?_
    refine .ite' (fun _ => plannedStorageCost_spec p pieces rest _ _) fun _ => ?_
    refine SpecOr.after (hI.left _ _) (Keeps.ensure' _ _) fun _ => ?_
    exact plannedStorageCost_spec p pieces rest _ _

theorem checkRecord_spec (p : Progress Digest) (pieces : List Bytes) (line : Bytes) :
    SpecOr (I p pieces) (checkRecord content decoder options p line)
      (fun r s => I r.2 pieces s ∧ (r.1 → promotable content decoder options line)) E := by
  have hno : ∀ s, I p pieces s → I p pieces s ∧ (false = true → promotable content decoder options line = true) :=
    fun _ h => ⟨h, nofun⟩
  unfold checkRecord
  split
  · exact .pure' _ hno
  · next isDuplicateRecord hindex =>
    refine .ite' (fun hlong => ?_) fun _ => .pure' _ hno
    refine SpecOr.point' (hI.left _ _) fun _ => ?_
    refine .ite' (fun hdup => ?_) fun _ => .pure' _ hno
    refine SpecOr.checked (hI.left _ _) fun components hcomponents => ?_
    refine .bind' (plannedStorageCost_spec hI p pieces _ p.store 0) fun r => ?_
    refine .bind' (hI.plan { p with store := r.2 } pieces line) fun r' => ?_
    refine SpecOr.after (hI.left _ _) (Keeps.read' _) fun _ => ?_
    refine .pure' _ fun _ h => ⟨h, fun hp => ?_⟩
    rw [Bool.and_eq_true] at hp
    rw [promotable, hcomponents, hindex]
    simp only [Option.any_some, hlong, hdup, decide_true, Bool.true_and]
    exact hp.1

variable (k : Cutting)

theorem processLine_spec (p : Progress Digest) (line : Bytes) :
    SpecOr (I p k.pieces) (processLine content decoder options k.chunker p line) (fun r s => ∃ promote, Reaches I
        (k.wholeLine decoder options (promote && promotable content decoder options line) line) r s) E := by
  refine .bind' (checkRecord_spec hI p k.pieces line) fun r => .given fun hr => ?_
  refine .ite' (fun hp => ?_) fun _ => ?_
  · refine .bindAs (finish_spec hI k r.2) fun p₁ => ?_
    refine .bind' (hI.append _ _ p₁ _ _) fun p₂ => .pure' _ fun s h => ⟨true, p₂, ?_, ?_⟩
    · simp [Cutting.wholeLine, hr hp, Cutting.take]
    · simpa [Cutting.wholeLine, hr hp, Cutting.take] using h
  · have hskip : ∀ (q : Chunker × Progress Digest) s, Reaches I (k.wholeLine decoder options false line) q s →
        ∃ promote, Reaches I
          (k.wholeLine decoder options (promote && promotable content decoder options line) line) q s :=
      fun q s h => ⟨false, h⟩
    refine .post ?_ hskip (fun _ _ h => h) fun _ h => h
    unfold Cutting.wholeLine
    simp only [Bool.false_eq_true, if_false]
    cases findStringSpans decoder line options.fieldThreshold with
    | error _ => exact (write_spec hI k _ _).pre fun s h => hI.other r.2 _ _ s rfl rfl h
    | ok spans => exact appendFields_spec hI line spans k r.2 0

theorem takeFragment_spec (p : Progress Digest) (data : Bytes) :
    SpecOr (I p k.pieces) (takeFragment content options (k.assembly p) data)
      (fun a s => ∃ q, a = (k.fragment options data).assembly q ∧ I q (k.fragment options data).pieces s) E := by
  have hread : ∀ (q : Progress Digest) s, q.store = p.store → q.parts = p.parts →
      I p k.pieces s → I q k.pieces s := fun q s hs hp h => hI.other p q _ s hs hp h
  unfold takeFragment Cutting.fragment
  by_cases hnil : data = []
  · simp only [hnil, if_true]
    exact .pure' _ fun _ h => ⟨p, rfl, h⟩
  · simp only [hnil, if_false]
    by_cases ho : k.oversized = true
    · simp only [Cutting.assembly, ho, if_true]
      refine .bindAs ((write_spec hI k _ data).pre fun s h => hread _ s rfl rfl h) fun p₁ => ?_
      exact .pure' _ fun s h => ⟨p₁, by simp [Cutting.write, ho], h⟩
    · simp only [Cutting.assembly, ho]
      by_cases hlong : ((k.line.length + data.length : Nat) : Int) > options.maxJSONLineBytes
      · simp only [hlong, if_true]
        refine .bindAs ((write_spec hI k _ k.line).pre fun s h => hread _ s rfl rfl h) fun p₁ => ?_
        refine .bindAs (write_spec hI (k.write k.line) p₁ data) fun p₂ => ?_
        exact .pure' _ fun s h => ⟨p₂, rfl, h⟩
      · simp only [hlong, if_false]
        exact .pure' _ fun s h => ⟨_, rfl, hread _ s rfl rfl h⟩

theorem finishLine_spec (p : Progress Digest) :
    SpecOr (I p k.pieces) (finishLine content decoder options (k.assembly p))
      (fun a s => ∃ promote q, a = (k.closeLine content decoder options promote).assembly q ∧
        I q (k.closeLine content decoder options promote).pieces s) E := by
  unfold finishLine Cutting.closeLine
  by_cases ho : k.oversized = true
  · simp only [Cutting.assembly, ho, if_true]
    exact .pure' _ fun _ h => ⟨false, p, rfl, h⟩
  · simp only [Cutting.assembly, ho]
    refine .bind' (processLine_spec hI k p k.line) fun r => .pure' _ fun s h => ?_
    obtain ⟨promote, q, rfl, hq⟩ := h
    exact ⟨promote, q, rfl, hq⟩

theorem finishInput_spec (p : Progress Digest) :
    SpecOr (I p k.pieces) (finishInput content decoder options (k.assembly p))
      (fun a s => ∃ promote q, a = (k.closeInput content decoder options promote).assembly q ∧
        I q (k.closeInput content decoder options promote).pieces s) E := by
  refine .ite' (fun hc => ?_) fun hc => ?_
  · have hk : k.closeInput content decoder options false = k := if_pos hc
    exact .pure' _ fun _ h => ⟨false, p, by rw [hk], by rw [hk]; exact h⟩
  · have hk : ∀ promote, k.closeInput content decoder options promote =
        k.closeLine content decoder options promote := fun _ => if_neg hc
    refine (finishLine_spec hI k p).weaken ?_
    rintro a s ⟨promote, q, rfl, hq⟩
    exact ⟨promote, q, by rw [hk], by rw [hk]; exact hq⟩

theorem segment_spec : ∀ (fuel : Nat) (k : Cutting) (p : Progress Digest) (rest : Bytes),
    SpecOr (I p k.pieces) (segment content decoder options fuel (k.assembly p) rest)
      (fun q s => ∃ promotions, I q (k.cut content decoder options fuel promotions rest) s) E
  | 0, k, p, _ => .throw' _ (hI.left _ _)
  | fuel + 1, k, p, rest => by
    unfold segment Cutting.cut
    generalize readSlice rest = read
    obtain ⟨data, status, tail⟩ := read
    refine .point' (hI.left _ _) fun _ => ?_
    refine .bindAs (takeFragment_spec hI k p data) fun p₁ => ?_
    cases status with
    | delim =>
      refine .bind' (finishLine_spec hI (k.fragment options data) p₁) fun a fs s h => ?_
      obtain ⟨promote, q, rfl, hq⟩ := h
      refine ((segment_spec fuel _ q tail).weaken ?_) fs s hq
      rintro q' s' ⟨promotions, h'⟩
      exact ⟨promote :: promotions, h'⟩
    | bufferFull => exact segment_spec fuel _ p₁ tail
    | eof =>
      refine Spec.bind' (finishInput_spec hI (k.fragment options data) p₁) fun a fs s h => ?_
      obtain ⟨promote, q, rfl, hq⟩ := h
      refine Spec.bind' (finish_spec hI _ q) (fun r => Spec.pure' _ fun s h => ?_) fs s hq
      obtain ⟨q', rfl, hq'⟩ := h
      exact ⟨[promote], hq'⟩

end

end

end CodexFold.Fold
