import CodexFold.Pack.Operations

/- When every manifest is backed by loose objects, Build can make its candidate.

   The reference index has one row for every object of every manifest, without a
   conflict, since two references with one digest name the same bytes. Every row
   is then packed from the loose store, and the candidate reconstructs every
   manifest and passes its own verification. -/
namespace CodexFold.Pack
open Foundation Fold List Option

section
variable {Digest : Type} [DecidableEq Digest] {content : Content Digest}
variable {files : Store Digest} {objects : Files Digest Bytes}

structure Backed (content : Content Digest) (files : Store Digest) : Prop where
  loose : ValidObjects content files.objects
  manifests : ∀ path manifest, files.listed.get path = some manifest →
    verifyManifest content (looseReader content files.objects) manifest = .ok ()

def LooseBytes (content : Content Digest) (objects : Files Digest Bytes) (digest : Digest) (data : Bytes) : Prop :=
  content.sha256 data = digest ∧ (objects.get digest).isSome = true

omit [DecidableEq Digest] in
theorem readParts_opens {reader : ObjectReader Digest} : ∀ {parts : List (Fold.Part Digest)} {data : Bytes},
    readParts reader parts = .ok data → ∀ part ∈ parts, ∃ bytes, reader.openObject part.object = .ok bytes
  | [], _, _, part, hpart => by cases hpart
  | first :: rest, data, h, part, hpart => by
    unfold readParts at h
    split at h
    · cases h
    · next head hhead =>
      split at h
      · cases h
      · next tail htail =>
        rcases mem_cons.mp hpart with rfl | hpart
        · exact ⟨head, hhead⟩
        · exact readParts_opens htail part hpart

theorem Backed.part (h : Backed content files) {path : String}
    {manifest : Manifest Digest} (hm : files.listed.get path = some manifest) {part : Fold.Part Digest}
    (hpart : part ∈ manifest.parts) :
    ∃ data, part.object.Names content data ∧ LooseBytes content files.objects part.object.sha256 data := by
  have hver := (verifyManifest_ok.mp (h.manifests path manifest hm)).2
  unfold verifyStoredManifest at hver
  cases hr : readParts (looseReader content files.objects) manifest.parts with
  | error e => simp [hr] at hver
  | ok whole =>
    obtain ⟨data, ho⟩ := readParts_opens hr part hpart
    obtain ⟨hn, hs⟩ := readObject_names ho
    exact ⟨data, hn, hn.1.symm, hs⟩

/-! ## The reference index -/

def GoodRows (content : Content Digest) (objects : Files Digest Bytes) (rows : Files Digest (Option Nat)) : Prop :=
  ∀ digest row, rows.get digest = some row → ∃ data, row = some data.length ∧ LooseBytes content objects digest data

theorem addReference_good {rows : Files Digest (Option Nat)}
    (h : GoodRows content objects rows) {ref : ObjectRef Digest} {data : Bytes}
    (hn : ref.Names content data) (hl : LooseBytes content objects ref.sha256 data) :
    GoodRows content objects (addReference rows ref) := by
  intro digest row hget
  unfold addReference at hget
  rw [get_set] at hget
  split at hget
  · next heq =>
    subst heq
    refine ⟨data, ?_, hl⟩
    cases hrow : rows.get ref.sha256 with
    | none =>
      rw [hrow] at hget
      rw [← some.inj hget, hn.2]
    | some known =>
      -- the known row has the length of the same bytes
      obtain ⟨data', hknown, hl'⟩ := h _ _ hrow
      have hsame : data' = data := content.sha256_injective (hl'.1.trans hl.1.symm)
      simp only [hrow, hknown, hsame, hn.2, if_true] at hget
      exact (some.inj hget).symm
  · exact h digest row hget

theorem addReference_has (rows : Files Digest (Option Nat)) (ref : ObjectRef Digest)
    {digest : Digest} (h : digest = ref.sha256 ∨ (rows.get digest).isSome) :
    ((addReference rows ref).get digest).isSome = true := by
  unfold addReference
  rw [get_set]
  split
  · rfl
  · next hne => exact h.resolve_left hne

theorem foldReferences_good : ∀ (refs : List (ObjectRef Digest))
    {rows : Files Digest (Option Nat)}, GoodRows content objects rows →
    (∀ ref ∈ refs, ∃ data, ref.Names content data ∧ LooseBytes content objects ref.sha256 data) →
    GoodRows content objects (refs.foldl addReference rows)
  | [], _, h, _ => h
  | ref :: rest, rows, h, hrefs => by
    obtain ⟨data, hn, hl⟩ := hrefs ref (.head _)
    exact foldReferences_good rest (addReference_good h hn hl) (fun r hr => hrefs r (.tail _ hr))

theorem foldReferences_has : ∀ (refs : List (ObjectRef Digest)) (rows : Files Digest (Option Nat))
    {digest : Digest}, ((rows.get digest).isSome ∨ ∃ ref ∈ refs, ref.sha256 = digest) →
    ((refs.foldl addReference rows).get digest).isSome
  | [], _, _, h => by
    rcases h with h | ⟨_, hr, _⟩
    · exact h
    · cases hr
  | ref :: rest, rows, digest, h => by
    refine foldReferences_has rest _ ?_
    rcases h with h | ⟨r, hr, he⟩
    · exact .inl (addReference_has rows ref (.inr h))
    · rcases mem_cons.mp hr with rfl | hr
      · exact .inl (addReference_has rows r (.inl he.symm))
      · exact .inr ⟨r, hr, he⟩

theorem rowLengths_good : ∀ (rows : List (Digest × Option Nat)),
    (∀ r ∈ rows, ∃ data, r.2 = some data.length ∧ LooseBytes content objects r.1 data) →
    ∃ lengths, rowLengths rows = .ok lengths ∧ lengths.map Prod.fst = rows.map Prod.fst ∧
      ∀ r ∈ lengths, ∃ data, r.2 = data.length ∧ LooseBytes content objects r.1 data
  | [], _ => ⟨[], rfl, rfl, nofun⟩
  | (digest, row) :: rest, h => by
    obtain ⟨data, hrow, hl⟩ := h (digest, row) (.head _)
    obtain ⟨lengths, hok, hmap, hall⟩ := rowLengths_good rest fun r hr => h r (.tail _ hr)
    simp only at hrow
    refine ⟨(digest, data.length) :: lengths, ?_, by simp [hmap], ?_⟩
    · simp [rowLengths, hrow, hok]
    · intro r hr
      rcases mem_cons.mp hr with rfl | hr
      · exact ⟨data, rfl, hl⟩
      · exact hall r hr

theorem buildReferenceIndex_backed (h : Backed content files) (hroot : files.manifestRoot) :
    ∃ rows, buildReferenceIndex files = .ok rows ∧
      (∀ r ∈ rows, ∃ data, r.2 = data.length ∧ LooseBytes content files.objects r.1 data) ∧
      ∀ path manifest, files.listed.get path = some manifest → ∀ part ∈ manifest.parts,
        part.object.sha256 ∈ rows.map Prod.fst := by
  have hrefs : ∀ ref ∈ files.listed.entries.flatMap (fun m => m.2.parts.map Fold.Part.object),
      ∃ data, ref.Names content data ∧ LooseBytes content files.objects ref.sha256 data := by
    intro ref hr
    obtain ⟨⟨path, manifest⟩, hm, hp⟩ := mem_flatMap.mp hr
    obtain ⟨part, hpart, rfl⟩ := List.mem_map.mp hp
    exact h.part (files.listed.get_eq_some_iff.mpr hm) hpart
  have hgood : GoodRows content files.objects (referenceRows files.listed.entries) :=
    foldReferences_good _ (fun _ _ hget => by simp at hget) hrefs
  obtain ⟨rows, hok, hmap, hall⟩ := rowLengths_good (referenceRows files.listed.entries).entries
    (fun r hr => hgood r.1 r.2 ((get_eq_some_iff _).mpr hr))
  refine ⟨rows, by simp [buildReferenceIndex, hroot, hok], hall, fun path manifest hm part hpart => ?_⟩
  have hsome : ((referenceRows files.listed.entries).get part.object.sha256).isSome := by
    refine foldReferences_has _ _ (.inr ⟨part.object, ?_, rfl⟩)
    exact mem_flatMap.mpr ⟨(path, manifest), files.listed.get_eq_some_iff.mp hm,
      List.mem_map.mpr ⟨part, hpart, rfl⟩⟩
  obtain ⟨row, hrow⟩ := isSome_iff_exists.mp hsome
  rw [hmap]
  exact List.mem_map.mpr ⟨_, (get_eq_some_iff _).mp hrow, rfl⟩

/-! ## The candidate -/

theorem packObjects_backed (hv : ValidObjects content objects)
    (previous : Option (Files Digest Bytes)) : ∀ (rows : List (Digest × Nat)),
    (∀ r ∈ rows, ∃ data, r.2 = data.length ∧ LooseBytes content objects r.1 data) →
    ∃ packed, packObjects content objects previous rows = .ok packed ∧ ValidPacked content packed ∧
      ∀ digest ∈ rows.map Prod.fst, (packed.get digest).isSome
  | [], _ => ⟨.empty, rfl, fun _ _ h => by simp at h, nofun⟩
  | (digest, rawBytes) :: rest, h => by
    obtain ⟨data, hraw, hsha, hsome⟩ := h (digest, rawBytes) (.head _)
    obtain ⟨packed, hok, hvalid, hall⟩ :=
      packObjects_backed hv previous rest fun r hr => h r (.tail _ hr)
    obtain ⟨stored, hget⟩ := isSome_iff_exists.mp hsome
    have hread : readObject content objects ⟨digest, rawBytes, 0⟩ = .ok data :=
      looseReader_valid hv ⟨digest, rawBytes, 0⟩ data hsha.symm hraw (by simp [looseReader, hget])
    have hpack : packObject content objects previous digest rawBytes = .ok data := by
      simp [packObject, hget, hread]
    refine ⟨packed.set digest data, by simp [packObjects, hpack, hok], ?_, ?_⟩
    · intro digest' data' hget'
      rw [get_set] at hget'
      split at hget'
      · next heq =>
        cases hget'
        rw [heq]
        exact hsha
      · exact hvalid digest' data' hget'
    · intro digest' hmem
      rw [get_set]
      split
      · rfl
      · next hne => exact hall digest' ((mem_cons.mp hmem).resolve_left hne)

theorem collectRecoverySources_all {reader : ObjectReader Digest} : ∀ {manifests : List (String × Manifest Digest)},
    (∀ m ∈ manifests, verifyManifest content reader m.2 = .ok ()) →
    collectRecoverySources content reader manifests = .ok manifests
  | [], _ => rfl
  | (path, manifest) :: rest, h => by
    have hfirst := h (path, manifest) (.head _)
    have hrest := collectRecoverySources_all (fun m hm => h m (.tail _ hm))
    simp only at hfirst
    simp [collectRecoverySources, hfirst, hrest]

/-- A generation as Build makes them: valid objects, and an archive that describes
    them and can be reconstructed from them. -/
structure Sealed (content : Content Digest) (generation : Generation Digest) : Prop where
  valid : ValidPacked content generation.packed
  recovery : ∃ sources, generation.recovery = some ⟨generation.packed.entries, sources⟩ ∧
    verifyManifests content (packedReader generation.packed) sources = .ok ()

def Reconstructs (content : Content Digest) (manifests : Files String (Manifest Digest))
    (generation : Generation Digest) : Prop :=
  verifyManifests content (packedReader generation.packed) manifests.entries = .ok ()

theorem Sealed.verifyRecovery {generation : Generation Digest} (h : Sealed content generation) :
    ∃ recovery, Pack.verifyRecovery generation = .ok recovery ∧ generation.recovery = some recovery ∧
      verifyManifests content (packedReader generation.packed) recovery.manifests = .ok () := by
  obtain ⟨sources, hr, hs⟩ := h.recovery
  exact ⟨_, by simp [Pack.verifyRecovery, hr], hr, hs⟩

theorem buildCandidate_backed (h : Backed content files)
    (hroot : files.manifestRoot) (previous : Option (Files Digest Bytes)) :
    ∃ candidate, buildCandidate content files previous = .ok candidate := by
  obtain ⟨rows, hrows, hgood, hcover⟩ := buildReferenceIndex_backed h hroot
  obtain ⟨packed, hpacked, hvalid, hall⟩ := packObjects_backed h.loose previous rows hgood
  have hlive : ∀ m ∈ files.listed.entries, verifyManifest content (packedReader packed) m.2 = .ok () := by
    rintro ⟨path, manifest⟩ hm
    have hget := files.listed.get_eq_some_iff.mpr hm
    obtain ⟨hok, hver⟩ := verifyManifest_ok.mp (h.manifests path manifest hget)
    refine verifyManifest_ok.mpr ⟨hok, verifyStoredManifest_transfer (fun part hpart bytes ho => ?_) hver⟩
    -- the packed object has the digest of the loose one, so it has its bytes
    obtain ⟨hn, _⟩ := readObject_names ho
    obtain ⟨data, hdata⟩ := isSome_iff_exists.mp (hall _ (hcover path manifest hget part hpart))
    have hsame : data = bytes := content.sha256_injective ((hvalid _ _ hdata).trans hn.1)
    rw [hsame] at hdata
    exact packedReader_open.mpr ⟨hdata, hn.2.symm⟩
  have hsources := collectRecoverySources_all hlive
  have hsealed : verifyGeneration content
      ⟨packed, some ⟨packed.entries, files.listed.entries⟩, none⟩ = .ok () := verifyGeneration_ok.mpr hvalid
  have hverify : verifyRecoveryAndLiveManifests content files.listed
      ⟨packed.entries, files.listed.entries⟩ (packedReader packed) = .ok () := by
    simp [verifyRecoveryAndLiveManifests, verifyManifests_ok.mpr hlive]
  refine ⟨⟨packed, some ⟨packed.entries, files.listed.entries⟩, none⟩, ?_⟩
  simp [buildCandidate, hrows, hpacked, hsources, hsealed, Pack.verifyRecovery, hverify, bind, Except.bind,
    pure, Except.pure]

theorem buildCandidate_sealed {previous : Option (Files Digest Bytes)}
    {candidate : Generation Digest} (h : buildCandidate content files previous = .ok candidate) :
    Sealed content candidate ∧ Reconstructs content files.listed candidate ∧ candidate.marker = none := by
  obtain ⟨_, _, h⟩ := of_bind h
  obtain ⟨packed, _, h⟩ := of_bind h
  obtain ⟨sources, _, h⟩ := of_bind h
  obtain ⟨_, hvalid, h⟩ := of_bind h
  obtain ⟨recovery, hrecovery, h⟩ := of_bind h
  obtain ⟨_, hlive, h⟩ := of_bind h
  cases h
  simp only [Pack.verifyRecovery, if_true, Except.ok.injEq] at hrecovery
  subst hrecovery
  unfold verifyRecoveryAndLiveManifests at hlive
  split at hlive
  · cases hlive
  · next hsources => exact ⟨⟨verifyGeneration_ok.mp hvalid, sources, rfl, hsources⟩, hlive, rfl⟩

end

end CodexFold.Pack
