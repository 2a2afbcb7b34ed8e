import CodexFold.Fold.Fold

/- Fold then Unfold is the identity.

   `Folded base source p s out` is the invariant of the segmentation: the parts
   appended so far are nonempty, name the pieces of `out` in order, and every one
   of them is stored. Each function of the loop moves a known number of bytes from
   its argument to `out` followed by the pending chunk (`appendPart_folded`,
   `processLine_folded`, `takeFragment_folded`), so the loop ends with
   `out = source`, and the checks before the commit, and Unfold after it, can only
   succeed. -/
namespace CodexFold.Fold
open Foundation List JsonRaw Cdc

/-! ## Unfold -/

structure UnfoldOptions (Digest : Type) where
  targetPath : String
  overwrite : Bool
  reader : Option (ObjectReader Digest)

section
variable {Digest : Type} [DecidableEq Digest] (content : Content Digest)

def openObjectReader (objects : Files Digest Bytes) (reader : Option (ObjectReader Digest)) :
    ObjectReader Digest :=
  reader.getD (looseReader content objects)

def unfoldManifest (manifest : Manifest Digest) (options : UnfoldOptions Digest) :
    Prog (Store Digest) String Unit := do
  let targetPath := if options.targetPath = "" then manifest.session.rolloutPath else options.targetPath
  let s ← read id
  ensure (options.overwrite || (s.rollouts.get targetPath).isNone)
    s!"restore target already exists: {targetPath}"
  point "storage budget"
  point "create restore temporary file"
  let data ← ofExcept (readParts (openObjectReader content s.objects options.reader) manifest.parts)
  point "write restored object"
  ofExcept (verifySourceDigest content data manifest.source)
  point "sync restored rollout"
  effect "commit restored rollout" (fun s => { s with rollouts := s.rollouts.set targetPath data })
  point "sync restore directory"

def loadManifest (sessionID : String) : Prog (Store Digest) String (Manifest Digest) := do
  ofExcept (validateSessionID sessionID)
  let found ← read (fun s => s.manifests.get (manifestPath sessionID))
  match found with
  | none => throw "read fold manifest"
  | some manifest => do
    ofExcept (validateManifest manifest)
    pure manifest

def unfoldWithOptions (sessionID : String) (options : UnfoldOptions Digest) :
    Prog (Store Digest) String Unit := do
  let manifest ← loadManifest sessionID
  unfoldManifest content manifest options

end

/-! ## The invariant of the segmentation -/

section
variable {Digest : Type} [DecidableEq Digest] {content : Content Digest} {decoder : Decoder}
  {options : FoldOptions Digest} {base : Store Digest} {source : Bytes}
variable {objects : Files Digest Bytes} {p : Progress Digest} {s : Store Digest} {out total : Bytes}
variable {consumed : Bytes}

def FoldOptions.manifestKind (options : FoldOptions Digest) : ManifestKind :=
  if options.recordIndex.isSome then .foldV2 else .foldV1

structure PartHolds (content : Content Digest) (options : FoldOptions Digest)
    (objects : Files Digest Bytes) (part : Part Digest) (data : Bytes) : Prop where
  nonempty : data ≠ []
  names : part.object.Names content data
  stored : Stored objects options.existingReader part.object
  supported : supportedPart options.manifestKind part.kind = true

/-- The state `s` and the progress `p` of a Fold that started in `base`, has read
    `source` and has appended the bytes `out`. -/
structure Folded (content : Content Digest) (options : FoldOptions Digest) (base : Store Digest)
    (source : Bytes) (p : Progress Digest) (s : Store Digest) (out : Bytes) : Prop where
  grown : base.Extends s
  valid : ValidObjects content s.objects
  agrees : p.store.Agrees content s.objects
  read : p.source = source
  reconstruction : p.reconstruction = out
  parts : ∃ datas, datas.flatten = out ∧ Forall₂ (PartHolds content options s.objects) p.parts datas

section

variable {objects' : Files Digest Bytes} (h : ∀ digest, (objects.get digest).isSome = true → (objects'.get digest).isSome = true)
include h

theorem Stored.mono {existing : Option (ObjectReader Digest)} {ref : ObjectRef Digest}
    (hs : Stored objects existing ref) : Stored objects' existing ref := by
  rcases hs with hs | hs
  · exact .inl (h _ hs)
  · exact .inr hs

theorem PartHolds.mono {part : Part Digest} {data : Bytes} (hp : PartHolds content options objects part data) :
    PartHolds content options objects' part data :=
  ⟨hp.nonempty, hp.names, hp.stored.mono h, hp.supported⟩

end

variable {path : String}

theorem Folded.addPart {s' : Store Digest} (h : Folded content options base source p s out) (hext : s.Extends s')
    (hv : ValidObjects content s'.objects) {store : ObjectStore Digest} (ha : store.Agrees content s'.objects)
    {kind : PartKind} {ref : ObjectRef Digest} {data : Bytes}
    (hp : PartHolds content options s'.objects ⟨kind, path, ref⟩ data) (reused : Bool) :
    Folded content options base source ({ p with store }.addPart kind path ref data reused) s'
      (out ++ data) := by
  obtain ⟨datas, hflat, hall⟩ := h.parts
  refine ⟨h.grown.trans hext, hv, ha, h.read, ?_, datas ++ [data], ?_, ?_⟩
  · show p.reconstruction ++ data = out ++ data
    rw [h.reconstruction]
  · rw [flatten_append, hflat]
    simp
  · refine rel_append (hall.imp fun _ _ hq => hq.mono hext.objects) ?_
    exact Forall₂.cons hp Forall₂.nil

theorem appendPart_folded (happly : options.apply) (kind : PartKind)
    (hkind : supportedPart options.manifestKind kind) (path : String)
    (h : Folded content options base source p s out) (data : Bytes) :
    ∃ p' s', Runs (appendPart content options kind path p data) s p' s' ∧
      Folded content options base source p' s' (out ++ data) := by
  unfold appendPart
  split
  · next hnil => exact ⟨p, s, .pure' p s, by simpa [hnil] using h⟩
  · next hne =>
    dsimp only
    split
    · -- the existing reader has the object: nothing is written
      next hex =>
      obtain ⟨reader, hreader, hhas⟩ := existingHas_iff.mp hex
      exact ⟨_, s, .pure' _ s, h.addPart (.refl s) h.valid h.agrees
        ⟨hne, ⟨rfl, rfl⟩, .inr ⟨reader, hreader, hhas⟩, hkind⟩ true⟩
    · obtain ⟨⟨ref, reused, store⟩, s', hrun, hput⟩ := put_runs h.valid h.agrees data options.apply
      have hstored : Stored s'.objects options.existingReader ref := by
        left
        rw [hput.names.1]
        exact hput.stored happly
      exact ⟨_, s', .bind' hrun (.pure' _ s'), h.addPart hput.extends' hput.valid hput.agrees
        ⟨hne, hput.names, hstored, hkind⟩ reused⟩

theorem emitResidual_accepts (happly : options.apply) :
    Chunker.Accepts (emitResidual content options) (Folded content options base source) :=
  fun _ _ _ data _ h => appendPart_folded happly .residual rfl "" h data

/-! ## One line -/

def FoldedWith (content : Content Digest) (options : FoldOptions Digest) (base : Store Digest)
    (source total : Bytes) (r : Chunker × Progress Digest) (s : Store Digest) : Prop :=
  ∃ out, Folded content options base source r.2 s out ∧ out ++ r.1.chunk = total

variable {c : Chunker}

theorem write_folded (happly : options.apply) (h : FoldedWith content options base source total (c, p) s)
    (data : Bytes) : ∃ r s', Runs (c.write (emitResidual content options) p data) s r s' ∧
      FoldedWith content options base source (total ++ data) r s' := by
  obtain ⟨out, hf, htotal⟩ := h
  obtain ⟨c', p', s', out', hrun, hf', hout⟩ :=
    Chunker.write_runs (emitResidual_accepts happly) data c p s out hf
  refine ⟨(c', p'), s', hrun, out', hf', ?_⟩
  rw [hout, ← htotal]

theorem finish_folded (happly : options.apply) (h : FoldedWith content options base source total (c, p) s) :
    ∃ c' p' s', Runs (c.finish (emitResidual content options) p) s (c', p') s' ∧ c'.chunk = [] ∧
      Folded content options base source p' s' total := by
  obtain ⟨out, hf, htotal⟩ := h
  obtain ⟨c', p', s', hrun, hc, hf'⟩ :=
    Chunker.finish_runs (emitResidual_accepts happly) c p s out hf
  refine ⟨c', p', s', hrun, hc, ?_⟩
  rw [← htotal]
  exact hf'

theorem Folded.with_empty (hc : c.chunk = []) (h : Folded content options base source p s total) :
    FoldedWith content options base source total (c, p) s :=
  ⟨total, h, by simp [hc]⟩

theorem slice_append_drop {line : Bytes} {start stop : Nat} (h : start ≤ stop) :
    slice line start stop ++ line.drop stop = line.drop start := by
  have hd : (line.drop start).drop (stop - start) = line.drop stop := by
    rw [drop_drop]
    congr 1
    omega
  rw [slice, ← hd, take_append_drop]

/-- The fields of a line and what lies between them are the rest of the line: the
    induction is on the spans, which are in order and inside the line. -/
theorem appendFields_folded (happly : options.apply) (line : Bytes) :
    ∀ (spans : List StringSpan) (c : Chunker) (p : Progress Digest) (s : Store Digest)
      (total : Bytes) (cursor : Nat), Within cursor line.length spans →
      FoldedWith content options base source total (c, p) s →
      ∃ r s', Runs (appendFields content options line c p cursor spans) s r s' ∧
        FoldedWith content options base source (total ++ line.drop cursor) r s'
  | [], c, p, s, total, cursor, _, h => write_folded happly h _
  | span :: rest, c, p, s, total, cursor, hw, h => by
    obtain ⟨hlo, hlt, hrest⟩ := hw
    obtain ⟨⟨c₁, p₁⟩, s₁, hrun₁, h₁⟩ := write_folded happly h (slice line cursor span.start)
    obtain ⟨c₂, p₂, s₂, hrun₂, hc₂, h₂⟩ := finish_folded happly h₁
    obtain ⟨p₃, s₃, hrun₃, h₃⟩ := appendPart_folded happly .field rfl span.path h₂ (slice line span.start span.stop)
    obtain ⟨r, s', hrun, h'⟩ := appendFields_folded happly line rest c₂ p₃ s₃ _ span.stop hrest (h₃.with_empty hc₂)
    refine ⟨r, s', .bind' hrun₁ (.bind' hrun₂ (.bind' hrun₃ hrun)), ?_⟩
    have htile : slice line cursor span.start ++ (slice line span.start span.stop ++ line.drop span.stop) =
        line.drop cursor := by
      rw [slice_append_drop (Nat.le_of_lt hlt), slice_append_drop hlo]
    rw [← htile]
    simpa only [append_assoc] using h'

/-- The one error a Fold can meet without any fault: the estimate of a record's
    components does not fit 64 bits. -/
def EstimateOverflow (e : String) : Prop := e = "record component storage estimate overflow"

theorem Folded.withStore {s' : Store Digest}
    (h : Folded content options base source p s out) (hext : s.Extends s')
    (hv : ValidObjects content s'.objects) {store : ObjectStore Digest}
    (ha : store.Agrees content s'.objects) :
    Folded content options base source { p with store } s' out := by
  obtain ⟨datas, hflat, hall⟩ := h.parts
  exact ⟨h.grown.trans hext, hv, ha, h.read, h.reconstruction, datas, hflat,
    hall.imp fun _ _ hq => hq.mono hext.objects⟩

theorem plannedStorageCost_folded : ∀ (parts : List PlannedPart) (p : Progress Digest) (s : Store Digest)
    (out : Bytes) (total : Nat), Folded content options base source p s out →
    Ends (plannedStorageCost content options p.store total parts) s
      (fun r s' => Folded content options base source { p with store := r.2 } s' out) EstimateOverflow
  | [], p, s, out, total, h => .of_runs (.pure' _ s) h
  | part :: rest, p, s, out, total, h => by
    obtain ⟨⟨ref, reused, store⟩, s', hrun, hput⟩ := put_runs h.valid h.agrees part.data false
    have h' := h.withStore hput.extends' hput.valid hput.agrees
    unfold plannedStorageCost
    refine .after hrun (.after (.read' _ s') ?_)
    split
    · exact plannedStorageCost_folded rest { p with store } s' out total h'
    · refine .ensure' (fun _ => ?_) (fun _ => rfl)
      exact plannedStorageCost_folded rest { p with store } s' out _ h'

section

variable (hcdc : ∃ chunker, new options.cdc = .ok chunker)
include hcdc

section

variable (h : Folded content options base source p s out)
include h

theorem promoteRecord_folded (line : Bytes) :
    Ends (promoteRecord content decoder options p line) s
      (fun r s' => Folded content options base source r.2 s' out) EstimateOverflow := by
  obtain ⟨chunker, hnew⟩ := hcdc
  have hplan : ∃ components, planRecordComponents decoder options line = .ok components := by
    unfold planRecordComponents
    rw [hnew]
    dsimp only
    split <;> exact ⟨_, rfl⟩
  obtain ⟨components, hcomponents⟩ := hplan
  refine .after (.ofExcept' s hcomponents) ?_
  refine .bind' (plannedStorageCost_folded components p s out 0 h) ?_
  rintro ⟨componentCost, store⟩ s₁ h₁
  obtain ⟨⟨ref, reused, store'⟩, s₂, hrun, hput⟩ := put_runs h₁.valid h₁.agrees line false
  refine .after hrun (.after (.read' _ s₂) ?_)
  exact .of_runs (.pure' _ s₂) (h₁.withStore hput.extends' hput.valid hput.agrees)

theorem checkRecord_folded (line : Bytes) :
    Ends (checkRecord content decoder options p line) s
      (fun r s' => Folded content options base source r.2 s' out ∧
        (r.1 → options.recordIndex.isSome)) EstimateOverflow := by
  unfold checkRecord
  split
  · exact .of_runs (.pure' _ s) ⟨h, nofun⟩
  · next isDuplicateRecord hindex =>
    split
    · refine .after (.point' _ s) ?_
      split
      · refine (promoteRecord_folded hcdc h line).mono fun r s' h' => ⟨h', fun _ => ?_⟩
        rw [hindex]
        rfl
      · exact .of_runs (.pure' _ s) ⟨h, nofun⟩
    · exact .of_runs (.pure' _ s) ⟨h, nofun⟩

end

end

theorem processLine_folded (happly : options.apply) (hcdc : ∃ chunker, new options.cdc = .ok chunker)
    (h : FoldedWith content options base source total (c, p) s) (line : Bytes) :
    Ends (processLine content decoder options c p line) s
      (FoldedWith content options base source (total ++ line)) EstimateOverflow := by
  obtain ⟨out, hf, htotal⟩ := h
  unfold processLine
  refine .bind' (checkRecord_folded hcdc hf line) ?_
  rintro ⟨promote, p₁⟩ s₁ ⟨hf₁, hv2⟩
  have h₁ : FoldedWith content options base source total (c, p₁) s₁ := ⟨out, hf₁, htotal⟩
  dsimp only at hv2 ⊢
  split
  · -- the record is one object of its own: the pending chunk ends before it
    next hpromote =>
    obtain ⟨c₂, p₂, s₂, hrun₂, hc₂, h₂⟩ := finish_folded happly h₁
    have hkind : supportedPart options.manifestKind .record := by
      simp [supportedPart, FoldOptions.manifestKind, hv2 hpromote]
    obtain ⟨p₃, s₃, hrun₃, h₃⟩ := appendPart_folded happly .record hkind "" h₂ line
    exact .after hrun₂ (.after hrun₃ (.of_runs (.pure' _ s₃) (h₃.with_empty hc₂)))
  · split
    · have h₂ : FoldedWith content options base source total
          (c, { p₁ with invalidJSONLines := p₁.invalidJSONLines + 1 }) s₁ :=
        ⟨out, ⟨hf₁.grown, hf₁.valid, hf₁.agrees, hf₁.read, hf₁.reconstruction, hf₁.parts⟩, htotal⟩
      obtain ⟨r, s', hrun, h'⟩ := write_folded happly h₂ line
      exact .of_runs hrun h'
    · next spans hspans =>
      obtain ⟨r, s', hrun, h'⟩ := appendFields_folded happly line spans c p₁ s₁ total 0
        (findStringSpans_within hspans) h₁
      exact .of_runs hrun (by simpa using h')

/-! ## The segmentation loop -/

/-- Between two fragments: the appended, the pending and the assembled bytes are
    what was read, and an oversized line is not assembled. -/
def Assembled (content : Content Digest) (options : FoldOptions Digest) (base : Store Digest)
    (consumed : Bytes) (a : Assembly Digest) (s : Store Digest) : Prop :=
  ∃ total, FoldedWith content options base consumed total (a.chunker, a.progress) s ∧
    total ++ a.line = consumed ∧ (a.oversized = true → a.line = [])

theorem Folded.readMore
    (h : Folded content options base source p s out) (fragment : Bytes) (oversizedLines : Nat) :
    Folded content options base (source ++ fragment)
      { p with source := p.source ++ fragment, oversizedLines } s out :=
  { h with read := by rw [h.read] }

section

variable (happly : options.apply = true)
include happly

variable {a : Assembly Digest}

theorem takeFragment_assembled (h : Assembled content options base consumed a s) (fragment : Bytes) :
    ∃ a' s', Runs (takeFragment content options a fragment) s a' s' ∧
      Assembled content options base (consumed ++ fragment) a' s' := by
  obtain ⟨total, ⟨out, hf, hout⟩, hline, hover⟩ := h
  unfold takeFragment
  dsimp only
  split
  · next hnil => exact ⟨a, s, .pure' a s, total, ⟨out, by simpa [hnil] using hf, hout⟩,
      by simpa [hnil] using hline, hover⟩
  · split
    · -- the rest of an oversized line
      next hoversized =>
      have hnoline := hover hoversized
      obtain ⟨⟨c', p'⟩, s', hrun, h'⟩ := write_folded happly
        (⟨out, hf.readMore fragment _, hout⟩ : FoldedWith content options base (consumed ++ fragment) total
          (a.chunker, { a.progress with source := a.progress.source ++ fragment }) s) fragment
      refine ⟨_, s', .bind' hrun (.pure' _ s'), total ++ fragment, h', ?_, fun _ => hnoline⟩
      rw [← hline, hnoline]
      simp
    · split
      · -- the line becomes oversized with this fragment
        obtain ⟨⟨c₁, p₁⟩, s₁, hrun₁, h₁⟩ := write_folded happly
          (⟨out, hf.readMore fragment (a.progress.oversizedLines + 1), hout⟩ :
            FoldedWith content options base (consumed ++ fragment) total
              (a.chunker, { a.progress with source := a.progress.source ++ fragment
                                            oversizedLines := a.progress.oversizedLines + 1 }) s) a.line
        obtain ⟨⟨c₂, p₂⟩, s₂, hrun₂, h₂⟩ := write_folded happly h₁ fragment
        refine ⟨_, s₂, .bind' hrun₁ (.bind' hrun₂ (.pure' _ s₂)), _, h₂, ?_, fun _ => rfl⟩
        rw [hline]
        simp
      · next hshort _ =>
        refine ⟨_, s, .pure' _ s, total, ⟨out, hf.readMore fragment _, hout⟩, ?_, ?_⟩
        · rw [← hline]
          simp
        · intro hoversized
          exact absurd hoversized hshort

section

variable (hcdc : ∃ chunker, new options.cdc = .ok chunker)
include hcdc

section

variable (h : Assembled content options base consumed a s)
include h

theorem finishLine_assembled :
    Ends (finishLine content decoder options a) s
      (fun a' s' => Assembled content options base consumed a' s' ∧ a'.line = []) EstimateOverflow := by
  obtain ⟨total, hf, hline, hover⟩ := h
  unfold finishLine
  split
  · next hoversized =>
    refine .of_runs (.pure' _ s) ⟨⟨total, hf, ?_, fun _ => rfl⟩, rfl⟩
    rw [← hline, hover hoversized]
  · refine .bind' (processLine_folded happly hcdc hf a.line) ?_
    rintro ⟨c', p'⟩ s' h'
    refine .of_runs (.pure' _ s') ⟨⟨_, h', ?_, fun _ => rfl⟩, rfl⟩
    rw [← hline]
    simp

theorem finishInput_assembled :
    Ends (finishInput content decoder options a) s
      (fun a' s' => Assembled content options base consumed a' s' ∧ a'.line = []) EstimateOverflow := by
  unfold finishInput
  split
  · next hc =>
    refine .of_runs (.pure' _ s) ⟨h, ?_⟩
    obtain ⟨_, _, _, hover⟩ := h
    simp only [Bool.or_eq_true, decide_eq_true_eq] at hc
    exact hc.elim hover id
  · exact finishLine_assembled happly hcdc h

end

end

end

theorem readSlice_spec (rest : Bytes) : ∃ fragment status rest',
    readSlice rest = (fragment, status, rest') ∧ fragment ++ rest' = rest ∧
    (status ≠ .eof → rest'.length < rest.length) ∧ (status = .eof → rest' = []) := by
  rcases readSlice_cases rest with ⟨line, rest', hslice, -, hsplit⟩ | ⟨fragment, rest', hslice, -, hne, hsplit⟩ |
    ⟨hslice, -⟩
  · refine ⟨_, _, _, hslice, by simp [hsplit], fun _ => ?_, nofun⟩
    rw [hsplit]
    simp
    omega
  · refine ⟨_, _, _, hslice, hsplit.symm, fun _ => ?_, nofun⟩
    have hpos := length_pos_of_ne_nil hne
    rw [hsplit, length_append]
    omega
  · exact ⟨_, _, _, hslice, append_nil _, absurd rfl, fun _ => rfl⟩

/-- The loop appends exactly what it reads. The induction is on the fuel, of which
    one more than the bytes left is enough. -/
theorem segment_folded (happly : options.apply)
    (hcdc : ∃ chunker, new options.cdc = .ok chunker) : ∀ (fuel : Nat) (a : Assembly Digest)
    (rest : Bytes) (s : Store Digest) (consumed : Bytes), rest.length < fuel →
    Assembled content options base consumed a s → Ends (segment content decoder options fuel a rest) s
      (fun p s' => Folded content options base (consumed ++ rest) p s' (consumed ++ rest)) EstimateOverflow
  | 0, _, _, _, _, hfuel, _ => absurd hfuel (Nat.not_lt_zero _)
  | fuel + 1, a, rest, s, consumed, hfuel, h => by
    obtain ⟨fragment, status, rest', hslice, hsplit, hless, hend⟩ := readSlice_spec rest
    obtain ⟨a₁, s₁, hrun₁, h₁⟩ := takeFragment_assembled happly h fragment
    have hconsumed : consumed ++ fragment ++ rest' = consumed ++ rest := by
      rw [append_assoc, hsplit]
    unfold segment
    refine .after (.point' _ s) ?_
    rw [hslice]
    refine .after hrun₁ ?_
    cases status with
    | delim =>
      refine .bind' (finishLine_assembled happly hcdc h₁) ?_
      rintro a₂ s₂ ⟨h₂, _⟩
      have hlt := hless (by decide)
      rw [← hconsumed]
      exact segment_folded happly hcdc fuel a₂ rest' s₂ _ (by omega) h₂
    | bufferFull =>
      have hlt := hless (by decide)
      rw [← hconsumed]
      exact segment_folded happly hcdc fuel a₁ rest' s₁ _ (by omega) h₁
    | eof =>
      -- the last line has no newline; then the pending chunk is flushed
      refine .bind' (finishInput_assembled happly hcdc h₁) ?_
      rintro a₂ s₂ ⟨⟨total, hf, hline, _⟩, hnil⟩
      obtain ⟨c', p', s', hrun, _, hf'⟩ := finish_folded happly hf
      refine .after hrun (.of_runs (.pure' _ s') ?_)
      have htotal : total = consumed ++ rest := by
        rw [← hconsumed, hend rfl, ← hline, hnil]
        simp
      rw [hend rfl, append_nil] at hconsumed
      rw [htotal, hconsumed] at hf'
      exact hf'

/-! ## The commit and the way back -/

theorem readParts_holds (hv : ValidObjects content objects)
    (hr : ∀ reader, options.existingReader = some reader → reader.Valid content) :
    ∀ {parts : List (Part Digest)} {datas : List Bytes}, Forall₂ (PartHolds content options objects) parts datas →
      readParts (objectReader content objects options.existingReader) parts = .ok datas.flatten
  | _, _, .nil => rfl
  | _, _, .cons hp hrest => by
    rw [readParts, objectReader_reads hv hr hp.names hp.stored, readParts_holds hv hr hrest]
    simp

theorem verifySourceDigest_self (data : Bytes) :
    verifySourceDigest content data ⟨data.length, content.sha256 data⟩ = .ok () := by
  simp [verifySourceDigest]

theorem validateParts_holds : ∀ {parts : List (Part Digest)}
    {datas : List Bytes} (index : Nat), Forall₂ (PartHolds content options objects) parts datas →
    validateParts options.manifestKind index parts = .ok ()
  | _, _, _, .nil => rfl
  | _, _, index, .cons hp hrest => by
    rw [validateParts, if_pos hp.supported]
    exact validateParts_holds (index + 1) hrest

/-- What the committed manifest says: `datas` are the pieces of the source, none is
    empty, and the parts name them in order. -/
structure Describes (content : Content Digest) (manifest : Manifest Digest) (source : Bytes)
    (datas : List Bytes) : Prop where
  tiles : datas.flatten = source
  parts : Forall₂ (fun part data => data ≠ [] ∧ part.object.Names content data) manifest.parts datas
  source : manifest.source = ⟨source.length, content.sha256 source⟩

def restoreReader (content : Content Digest) (objects : Files Digest Bytes)
    (existing : Option (ObjectReader Digest)) : Option (ObjectReader Digest) :=
  existing.map (fun reader => fallbackObjectReader (looseReader content objects) reader)

def UnfoldOptions.target (options : UnfoldOptions Digest) (session : Session) : String :=
  if options.targetPath = "" then session.rolloutPath else options.targetPath

def Restores (content : Content Digest) (session : Session) (existing : Option (ObjectReader Digest))
    (source : Bytes) (s : Store Digest) (unfold : UnfoldOptions Digest → Prog (Store Digest) String Unit) :
    Prop :=
  ∀ uo : UnfoldOptions Digest, uo.reader = restoreReader content s.objects existing →
    (uo.overwrite = true ∨ s.rollouts.get (uo.target session) = none) →
    ∃ s', Runs (unfold uo) s () s' ∧ s'.rollouts.get (uo.target session) = some source

theorem unfoldManifest_restores {manifest : Manifest Digest} {datas : List Bytes}
    (hd : Describes content manifest source datas)
    (hread : readParts (objectReader content s.objects options.existingReader) manifest.parts = .ok source) :
    Restores content manifest.session options.existingReader source s (unfoldManifest content manifest) := by
  intro uo hreader htarget
  have hopen : openObjectReader content s.objects uo.reader =
      objectReader content s.objects options.existingReader := by
    rw [hreader]
    cases options.existingReader <;> rfl
  have hcheck : (uo.overwrite || (s.rollouts.get (uo.target manifest.session)).isNone) := by
    rcases htarget with h | h <;> simp [h]
  have hdigest : verifySourceDigest content source manifest.source = .ok () := by
    rw [hd.source]
    exact verifySourceDigest_self source
  refine ⟨{ s with rollouts := s.rollouts.set (uo.target manifest.session) source }, ?_, by simp⟩
  refine .bind' (.read' id s) (.bind' (.ensure' _ s hcheck) ?_)
  refine .bind' (.point' _ s) (.bind' (.point' _ s) ?_)
  refine .bind' (.ofExcept' s (by rw [id, hopen]; exact hread)) ?_
  refine .bind' (.point' _ s) (.bind' (.ofExcept' s hdigest) ?_)
  exact .bind' (.point' _ s) (.bind' (.effect' _ _ s) (.point' _ _))

/-- The settings and the session that Fold accepts in the store `s`. -/
structure Accepted (given : FoldOptions Digest) (session : Session) (s : Store Digest) : Prop where
  options : checkOptions given session s = .ok ()
  bounds : ∃ chunker, new given.withDefaults.cdc = .ok chunker
  session : validateSessionID session.id = .ok ()

omit [DecidableEq Digest] in
theorem checkOptions_absent {given : FoldOptions Digest} {session : Session}
    (h : checkOptions given session s = .ok ()) (happly : given.apply) :
    given.overwrite ∨ s.manifests.get (given.manifestPath session) = none := by
  obtain ⟨-, h⟩ := of_guard h
  obtain ⟨-, h⟩ := of_guard h
  obtain ⟨-, h⟩ := of_guard h
  obtain ⟨hpresent, h⟩ := of_guard h
  simp only [happly, Bool.true_and, Bool.and_eq_true, Bool.not_eq_true', not_and] at hpresent
  cases hover : given.overwrite with
  | true => exact .inl rfl
  | false => exact .inr (by simpa using hpresent hover)

omit [DecidableEq Digest] in
theorem syncPending_runs (store : ObjectStore Digest) (s : Store Digest) : Runs (syncPending store) s () s := by
  have hpoint : ∀ (e : String) (l : List Digest),
      Runs (forEach (fun _ => (point e : Prog (Store Digest) String Unit)) l) s () s := by
    intro e l
    induction l with
    | nil => exact .pure' () s
    | cons d rest ih => exact .bind' (.point' e s) ih
  unfold syncPending
  split
  · exact .pure' () s
  · exact .bind' (hpoint _ _) (.bind' (hpoint _ _) (.point' _ s))

omit [DecidableEq Digest] in
theorem writeManifestPath_runs {manifest : Manifest Digest} {overwrite : Bool} (hm : validateManifest manifest = .ok ())
    (hp : overwrite ∨ s.manifests.get path = none) :
    Runs (writeManifestPath path manifest overwrite) s ()
      { s with manifestRoot := true, manifests := s.manifests.set path manifest } := by
  have hcheck : (overwrite || !(s.manifests.get path).isSome) := by
    rcases hp with h | h <;> simp [h]
  refine .bind' (.ofExcept' s hm) (.bind' (.read' _ s) ?_)
  refine .bind' (.ensure' _ s hcheck) (.bind' (.effect' _ _ s) ?_)
  refine .bind' (.point' _ _) (.bind' (.point' _ _) ?_)
  exact .bind' (.effect' _ _ _) (.point' _ _)

theorem completeFold_runs {session : Session} (h : Folded content options base source p s source)
    (happly : options.apply) (hsource : base.rollouts.get session.rolloutPath = some source)
    (hid : validateSessionID session.id = .ok ()) (hpath : options.overwrite ∨ base.manifests.get path = none)
    (hr : ∀ reader, options.existingReader = some reader → reader.Valid content) :
    ∃ result s' datas, Runs (completeFold content options session path p) s result s' ∧
      s'.manifests.get path = some (buildManifest content options session p) ∧
      validateManifest (buildManifest content options session p) = .ok () ∧
      Describes content (buildManifest content options session p) source datas ∧
      readParts (objectReader content s'.objects options.existingReader) p.parts = .ok source := by
  obtain ⟨datas, hflat, hall⟩ := h.parts
  have hread := readParts_holds h.valid hr hall
  rw [hflat] at hread
  have hsrc : (buildManifest content options session p).source = ⟨source.length, content.sha256 source⟩ := by
    rw [buildManifest, h.read]
  have hdesc : Describes content (buildManifest content options session p) source datas :=
    ⟨hflat, hall.imp fun _ _ hq => ⟨hq.nonempty, hq.names⟩, hsrc⟩
  have hverified : segmentationVerified content p := by
    simp [segmentationVerified, h.reconstruction, h.read]
  have hcurrent : Runs (verifyCurrentSource content session.rolloutPath
      (buildManifest content options session p).source) s () s := by
    have hroll : s.rollouts.get session.rolloutPath = some source := by rw [h.grown.rollouts]; exact hsource
    unfold verifyCurrentSource
    refine .bind' (.read' _ s) ?_
    rw [hroll]
    exact .ofExcept' s (by rw [hsrc]; exact verifySourceDigest_self source)
  have hstored : verifyStoredManifest content (objectReader content s.objects options.existingReader)
      (buildManifest content options session p) = .ok () := by
    unfold verifyStoredManifest
    rw [show (buildManifest content options session p).parts = p.parts from rfl, hread, hsrc]
    exact verifySourceDigest_self source
  have hmanifest : validateManifest (buildManifest content options session p) = .ok () := by
    have hparts := validateParts_holds 0 hall
    unfold validateManifest
    rw [show (buildManifest content options session p).session = session from rfl, hid]
    exact hparts
  have hpath' : options.overwrite = true ∨ s.manifests.get path = none := by
    rw [h.grown.manifests]; exact hpath
  have hcommit : Runs (commitManifest content options path (buildManifest content options session p) p.store)
      s () { s with manifestRoot := true, manifests := s.manifests.set path (buildManifest content options session p) } :=
    .bind' (.read' _ s) (.bind' (.ofExcept' s hstored)
      (.bind' (syncPending_runs p.store s) (writeManifestPath_runs hmanifest hpath')))
  unfold completeFold
  dsimp only
  rw [happly]
  cases hremove : options.removeSource with
  | true =>
    exact ⟨_, _, datas, .bind' (.ensure' _ s hverified) (.bind' (.point' _ s)
      (.bind' hcurrent (.bind' hcommit (.bind' (.effect' _ _ _) (.pure' _ _))))),
      by simp, hmanifest, hdesc, hread⟩
  | false =>
    exact ⟨_, _, datas, .bind' (.ensure' _ s hverified) (.bind' (.point' _ s)
      (.bind' hcurrent (.bind' hcommit (.pure' _ _)))), by simp, hmanifest, hdesc, hread⟩

/-- Fold with Apply, then Unfold: for every rollout, every accepted setting and every
    valid store, Fold returns (or a record's estimate overflows 64 bits, which is no
    verification error), the committed manifest's parts are the pieces of the rollout
    in order and none is empty, and Unfold of that manifest writes the rollout back. -/
theorem fold_unfold_identity (content : Content Digest) (decoder : Decoder) (session : Session)
    (given : FoldOptions Digest) (s : Store Digest) (source : Bytes)
    (hsource : s.rollouts.get session.rolloutPath = some source) (hvalid : ValidObjects content s.objects)
    (hreader : ∀ reader, given.existingReader = some reader → reader.Valid content)
    (happly : given.apply = true) (haccept : Accepted given session s) :
    Ends (fold content decoder session given) s (fun _ s' => ∃ manifest datas,
        s'.manifests.get (given.manifestPath session) = some manifest ∧ Describes content manifest source datas ∧
        Restores content session given.existingReader source s' (unfoldManifest content manifest) ∧
        (given.manifestPath session = manifestPath session.id →
          Restores content session given.existingReader source s' (unfoldWithOptions content session.id)))
      EstimateOverflow := by
  obtain ⟨chunker, hnew⟩ := haccept.bounds
  have hstart : Assembled content given.withDefaults s []
      { chunker, progress := newProgress, line := [], oversized := given.withDefaults.isOpaque } s := by
    have hempty : chunker.chunk = [] := by
      obtain ⟨-, hnew⟩ := of_guard hnew
      obtain ⟨-, hnew⟩ := of_guard hnew
      cases hnew; rfl
    exact ⟨[], ⟨[], ⟨.refl s, hvalid, newObjectStore_agrees _, rfl, rfl, [], rfl, .nil⟩, by simp [hempty]⟩,
      rfl, fun _ => rfl⟩
  refine .after (.read' _ s) (.after (.ofExcept' s haccept.options) ?_)
  refine .after (.read' _ s) ?_
  rw [hsource]
  refine .after (.point' _ s) (.after (.point' _ s) (.after (.ofExcept' s hnew) ?_))
  refine .bind' (segment_folded (show given.withDefaults.apply = true from happly) ⟨chunker, hnew⟩
    (source.length + 1) _ source s [] (by omega) hstart) ?_
  rintro p s₁ h₁
  rw [nil_append] at h₁
  obtain ⟨result, s₂, datas, hrun, hman, hvalidated, hdesc, hread⟩ := completeFold_runs h₁ happly hsource
    haccept.session (checkOptions_absent haccept.options happly) hreader
  have hrestores := unfoldManifest_restores hdesc hread
  refine .of_runs hrun ⟨_, datas, hman, hdesc, hrestores, ?_⟩
  -- Unfold by session id finds the manifest where Fold put it
  intro hpath uo hr htarget
  obtain ⟨s₃, hrun₃, htarget₃⟩ := hrestores uo hr htarget
  refine ⟨s₃, .bind' ?_ hrun₃, htarget₃⟩
  refine .bind' (.ofExcept' s₂ haccept.session) (.bind' (.read' _ s₂) ?_)
  rw [← hpath, show s₂.manifests.get (given.manifestPath session) = _ from hman]
  exact .bind' (.ofExcept' s₂ hvalidated) (.pure' _ s₂)

def blankDecoder : Decoder where
  State := Bytes
  new := id
  token _ := .error .eof
  more s := (false, s)
  inputOffset _ := 0
  input := id
  input_new _ := rfl
  input_token h := by cases h
  input_more _ := rfl
  offset_token h := by cases h
  offset_more _ := Nat.le_refl _
  offset_le _ := Nat.zero_le _

def newlineSession : Session := ⟨"session", "", "", "rollout", true⟩

def applyOptions : FoldOptions Bytes where
  isOpaque := false
  manifestPathOverride := none
  apply := true
  overwrite := false
  removeSource := false
  allowActive := false
  fieldThreshold := 0
  maxJSONLineBytes := 0
  cdc := ⟨0, 0, 0⟩
  existingReader := none
  recordIndex := none
  recordThreshold := 0

def threeRecords : Bytes := [97, newline, 98, newline, 99, newline]

def recordsStore : Store Bytes where
  objects := Files.empty.set [97, newline] [97, newline]
  manifestRoot := true
  manifests := .empty
  rollouts := Files.empty.set "rollout" threeRecords

def recordsOptions : FoldOptions Bytes :=
  { applyOptions with
    cdc := ⟨2, 2, 2⟩
    existingReader := some (looseReader .plain (Files.empty.set [98, newline] [98, newline])) }

theorem recordObject_valid (data : Bytes) : ValidObjects .plain (Files.empty.set data data) :=
  ValidObjects.set_compress (fun _ _ h => by cases h) data

theorem fold_unfold_identity_records :
    recordsStore.rollouts.get "rollout" = some threeRecords ∧
    Ends (fold .plain blankDecoder newlineSession recordsOptions) recordsStore (fun _ s' =>
        ∃ manifest datas, s'.manifests.get "session.json" = some manifest ∧
          Describes .plain manifest threeRecords datas ∧
          Restores .plain newlineSession recordsOptions.existingReader threeRecords s' (unfoldManifest .plain manifest) ∧
          (recordsOptions.manifestPath newlineSession = manifestPath newlineSession.id →
            Restores .plain newlineSession recordsOptions.existingReader threeRecords s'
              (unfoldWithOptions .plain newlineSession.id)))
      EstimateOverflow :=
  ⟨rfl, fold_unfold_identity .plain blankDecoder newlineSession recordsOptions recordsStore threeRecords rfl
    (recordObject_valid _) (fun _ h => by cases h; exact looseReader_valid (recordObject_valid _)) rfl
    ⟨by decide, ⟨_, rfl⟩, by decide⟩⟩

end

end CodexFold.Fold
