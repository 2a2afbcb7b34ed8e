import CodexFold.Pack.Candidate

/- The publication state of a store, as a small state machine.

   Between two Builds a store is in one of four phases: nothing was ever published;
   `CURRENT`, head and newest marker agree (`Settled`); a marker follows the head
   (`Marked`); the head has moved and `CURRENT` has not (`Headed`). A Build moves
   from settled to marked to headed to settled, and may stop in between. The phases
   carry what the next Build or Open needs to move on: a generation that is only
   half published still reconstructs every live manifest. -/
namespace CodexFold.Pack
open Foundation Fold List

section
variable {Digest : Type} [DecidableEq Digest]
variable {marker : PublishedGeneration Digest}
variable {next : PublishedGeneration Digest}

/-- The directory `name` holds the marker `marker`. -/
def HasMarker (s : PackStore Digest) (name : Nat) (marker : PublishedGeneration Digest) : Prop :=
  ∃ generation, s.generations.get name = some generation ∧ generation.marker = some marker

/-- A marker as `markGenerationPublished` writes it. -/
structure MarkerOK (storeID : Option Nat) (name : Nat) (generation : Generation Digest)
    (marker : PublishedGeneration Digest) : Prop where
  called : marker.generation = name
  positive : 1 ≤ marker.sequence
  first : marker.sequence = 1 ↔ marker.previousGeneration = none
  other : marker.previousGeneration ≠ some name
  recovery : generation.recovery = some marker.recovery
  store : marker.storeID = storeID
  known : storeID ≠ none

/-- What holds in every phase. `ever` says that some generation was made `CURRENT`
    before. -/
structure Basis (content : Content Digest) (ever : Prop) (s : PackStore Digest) : Prop where
  backed : Backed content s.files
  sealed : ∀ name generation, s.generations.get name = some generation → Sealed content generation
  markers : ∀ name generation marker, s.generations.get name = some generation →
    generation.marker = some marker → MarkerOK s.storeID name generation marker
  made : ever → s.current.isSome = true

structure Unpublished (s : PackStore Digest) : Prop where
  head : s.head = none
  current : s.current = none
  markers : ∀ name marker, HasMarker s name marker → marker.sequence = 1

/-- `CURRENT` and the head agree on the newest marker. -/
structure Settled (marker : PublishedGeneration Digest) (s : PackStore Digest) : Prop where
  head : s.head = some (headOf marker)
  onDisk : HasMarker s marker.generation marker
  current : s.current = some marker.generation
  newest : ∀ name other, HasMarker s name other → other.sequence ≤ marker.sequence

/-- The generation of `next` is ready to follow `CURRENT`. -/
structure Pending (content : Content Digest) (next : PublishedGeneration Digest) (s : PackStore Digest) :
    Prop where
  onDisk : HasMarker s next.generation next
  current : s.current = next.previousGeneration
  held : ∀ name, s.current = some name → (s.generations.get name).isSome = true
  newest : ∀ name other, HasMarker s name other → other.sequence ≤ next.sequence
  reconstructs : ∀ generation, s.generations.get next.generation = some generation →
    Reconstructs content s.files.listed generation

/-- The marker of `next` is there; head and `CURRENT` are still at `marker`. -/
structure Marked (content : Content Digest) (marker next : PublishedGeneration Digest) (s : PackStore Digest) :
    Prop where
  head : s.head = some (headOf marker)
  onDisk : HasMarker s marker.generation marker
  current : s.current = some marker.generation
  sequence : next.sequence = marker.sequence + 1
  others : ∀ name other, HasMarker s name other → other.sequence ≤ marker.sequence ∨ other = next
  pending : Pending content next s

/-- The head names `next`; `CURRENT` does not yet. -/
structure Headed (content : Content Digest) (next : PublishedGeneration Digest) (s : PackStore Digest) :
    Prop where
  head : s.head = some (headOf next)
  pending : Pending content next s

/-- The store is in one of the phases. -/
structure Coherent (content : Content Digest) (ever : Prop) (s : PackStore Digest) : Prop where
  basis : Basis content ever s
  phase : Unpublished s ∨ (∃ marker, Settled marker s) ∨ (∃ marker next, Marked content marker next s) ∨
    ∃ next, Headed content next s

variable {content : Content Digest} {ever : Prop} {s : PackStore Digest}

/-! ## What the code reads in each phase -/

omit [DecidableEq Digest] in
@[simp] theorem headOf_generation (marker : PublishedGeneration Digest) : (headOf marker).generation = marker.generation := rfl

omit [DecidableEq Digest] in
@[simp] theorem headOf_sequence (marker : PublishedGeneration Digest) :
    (headOf marker).sequence = marker.sequence := rfl

omit [DecidableEq Digest] in
theorem MarkerOK.read {name : Nat} {generation : Generation Digest}
    {storeID : Option Nat} (h : MarkerOK storeID name generation marker) (hm : generation.marker = some marker) :
    readPublishedMarker name generation = .ok marker := by
  have hpos : marker.sequence ≠ 0 := Nat.one_le_iff_ne_zero.mp h.positive
  have hprev : ¬(marker.sequence = 1 ∧ marker.previousGeneration ≠ none) := fun hc => hc.2 (h.first.mp hc.1)
  have hsome : ¬(marker.sequence > 1 ∧ marker.previousGeneration = none) := by
    rintro ⟨hgt, hnone⟩
    have := h.first.mpr hnone
    omega
  have hother : marker.previousGeneration ≠ some marker.generation := by rw [h.called]; exact h.other
  unfold readPublishedMarker
  simp only [hm]
  rw [if_neg (by simp [h.called, hpos]), if_neg (by tauto)]

theorem Basis.readHead (h : Basis content ever s)
    (hhead : s.head = some (headOf marker)) (hdisk : HasMarker s marker.generation marker) :
    readPublicationHead s = .ok (headOf marker, marker) := by
  obtain ⟨generation, hget, hm⟩ := hdisk
  have hok := h.markers _ _ _ hget hm
  have hpos : marker.sequence ≠ 0 := Nat.one_le_iff_ne_zero.mp hok.positive
  unfold readPublicationHead
  simp [hhead, headOf, hpos, hget, hm, hok.read hm]

omit [DecidableEq Digest] in
theorem findSuccessor_none {head : PublicationHead Digest} {found : Option (PublishedGeneration Digest)} :
    ∀ {entries : List (Nat × Generation Digest)}, (∀ e ∈ entries, ∀ marker, e.2.marker = some marker →
        readPublishedMarker e.1 e.2 = .ok marker ∧ marker.sequence ≤ head.sequence) →
      findSuccessor head found entries = .ok found
  | [], _ => rfl
  | (name, generation) :: rest, h => by
    have hrest : findSuccessor head found rest = .ok found :=
      findSuccessor_none fun e he => h e (.tail _ he)
    unfold findSuccessor
    cases hm : generation.marker with
    | none => simpa using hrest
    | some marker =>
      obtain ⟨hread, hle⟩ := h (name, generation) (.head _) marker hm
      simp only at hread
      simpa [hread, hle] using hrest

omit [DecidableEq Digest] in
theorem findSuccessor_next {head : PublicationHead Digest}
    (hseq : next.sequence = head.sequence + 1) (hprev : next.previousGeneration = some head.generation)
    (hstore : head.storeID ≠ none → next.storeID = head.storeID) :
    ∀ {entries : List (Nat × Generation Digest)}, (entries.map Prod.fst).Nodup →
      (∀ e ∈ entries, ∀ marker, e.2.marker = some marker → marker.generation = e.1 ∧
        readPublishedMarker e.1 e.2 = .ok marker ∧ (marker.sequence ≤ head.sequence ∨ marker = next)) →
      (∃ e ∈ entries, e.2.marker = some next) → findSuccessor head none entries = .ok (some next)
  | [], _, _, hex => by
    obtain ⟨_, he, _⟩ := hex
    cases he
  | (name, generation) :: rest, hnodup, h, hex => by
    obtain ⟨hname, hnodup'⟩ := nodup_cons.mp hnodup
    have hrest := fun e he => h e (mem_cons_of_mem (name, generation) he)
    -- a directory without the marker: it is further on
    have hex' : generation.marker ≠ some next → ∃ e ∈ rest, e.2.marker = some next := by
      intro hne
      obtain ⟨e, he, hnext⟩ := hex
      rcases mem_cons.mp he with rfl | he
      · exact absurd hnext hne
      · exact ⟨e, he, hnext⟩
    unfold findSuccessor
    cases hm : generation.marker with
    | none => simpa using findSuccessor_next hseq hprev hstore hnodup' hrest (hex' (by simp [hm]))
    | some marker =>
      obtain ⟨hgen, hread, hcase⟩ := h (name, generation) (.head _) marker hm
      simp only at hread hgen
      by_cases hle : marker.sequence ≤ head.sequence
      · have hne : generation.marker ≠ some next := by
          rw [hm]
          rintro ⟨⟩
          omega
        simpa [hread, hle] using findSuccessor_next hseq hprev hstore hnodup' hrest (hex' hne)
      · obtain rfl := hcase.resolve_left hle
        -- no other directory can hold it, so the rest is older
        have hold : findSuccessor head (some marker) rest = .ok (some marker) := by
          refine findSuccessor_none fun e he m hme => ?_
          obtain ⟨hgen', hread', hcase'⟩ := hrest e he m hme
          refine ⟨hread', hcase'.resolve_right fun heq => hname ?_⟩
          rw [heq, hgen] at hgen'
          exact mem_map.mpr ⟨e, he, hgen'.symm⟩
        have hst : ¬(head.storeID ≠ none ∧ marker.storeID ≠ head.storeID) := fun hc => hc.2 (hstore hc.1)
        simp only [reduceCtorEq, if_false, hread, if_neg hle]
        rw [if_neg (by simp [hseq, hprev]), if_neg hst, if_neg (by simp)]
        exact hold

theorem Basis.entry (h : Basis content ever s) {e : Nat × Generation Digest} (he : e ∈ s.generations.entries)
    (hm : e.2.marker = some marker) : HasMarker s e.1 marker ∧ MarkerOK s.storeID e.1 e.2 marker := by
  have hget : s.generations.get e.1 = some e.2 := s.generations.get_eq_some_iff.mpr he
  exact ⟨⟨e.2, hget, hm⟩, h.markers _ _ _ hget hm⟩

theorem Basis.noSuccessor (h : Basis content ever s)
    (hnew : ∀ name other, HasMarker s name other → other.sequence ≤ marker.sequence)
    (hmax : marker.sequence ≠ maxSequence) : findPublishedSuccessor s.generations (headOf marker) = .ok none := by
  unfold findPublishedSuccessor
  rw [if_neg (by exact hmax)]
  refine findSuccessor_none fun e he m hm => ?_
  obtain ⟨hhas, hok⟩ := h.entry he hm
  exact ⟨hok.read hm, hnew e.1 m hhas⟩

theorem Marked.successor (hb : Basis content ever s)
    (h : Marked content marker next s) (hmax : marker.sequence ≠ maxSequence) :
    findPublishedSuccessor s.generations (headOf marker) = .ok (some next) := by
  unfold findPublishedSuccessor
  rw [if_neg (by exact hmax)]
  obtain ⟨generation, hget, hm⟩ := h.pending.onDisk
  obtain ⟨generation', hget', hm'⟩ := h.onDisk
  have hprev : next.previousGeneration = some marker.generation := by
    rw [← h.pending.current, h.current]
  refine findSuccessor_next h.sequence hprev (fun _ => ?_) s.generations.nodup (fun e he m hme => ?_)
    ⟨(next.generation, generation), s.generations.get_eq_some_iff.mp hget, hm⟩
  · show next.storeID = marker.storeID
    rw [(hb.markers _ _ _ hget hm).store, (hb.markers _ _ _ hget' hm').store]
  · obtain ⟨hhas, hok⟩ := hb.entry he hme
    exact ⟨hok.called, hok.read hme, h.others e.1 m hhas⟩

theorem Pending.check (hb : Basis content ever s)
    (h : Pending content next s) : checkPromotion content next.generation s = .ok () := by
  obtain ⟨generation, hget, hm⟩ := h.onDisk
  have hok := hb.markers _ _ _ hget hm
  have hsealed := hb.sealed _ _ hget
  obtain ⟨recovery, hrec, hsome, harchived⟩ := hsealed.verifyRecovery
  have hread : readPublishedGeneration next.generation generation = .ok next := by
    simp [readPublishedGeneration, hok.read hm, hok.recovery]
  have hlive : verifyRecoveryAndLiveManifests content s.files.listed recovery
      (packedReader generation.packed) = .ok () := by
    simp only [verifyRecoveryAndLiveManifests, harchived]
    exact h.reconstructs generation hget
  simp [checkPromotion, hget, hread, hrec, verifyGeneration_ok.mpr hsealed.valid, hlive, bind, Except.bind]

end

end CodexFold.Pack
