import CodexFold.Pack.Encode
import CodexFold.Pack.Candidate
import CodexFold.Pack.Verified

/- A generation that `Build` published gives back what was put into it.

   `Build` opens its candidate, reads every object of it, compares the digests, and
   reads every live manifest through it before anything is published. Whichever way
   an object took into the candidate, what a resolver returns for it afterwards is
   therefore fixed by its digest; the object loop decides only which digests the
   index has. -/
namespace CodexFold.Pack.Layout
open Foundation Fold List

section
variable {Digest : Type}
variable {d d' : Draft Digest} {reuseKey : String → String} {previous : Nat}
variable {incremental : Bool}

/-! ## The index records -/

def Draft.records {Digest : Type} (d : Draft Digest) : List (Record Digest) × List (Record Digest) := (d.objects, d.blocks)

theorem rotate_records (h : d.rotate = .ok d') : d'.records = d.records := by
  obtain ⟨-, h⟩ := of_guard h
  cases h
  rfl

variable {name : String}

theorem write_records {data : Bytes} {offset : Nat} (h : d.write data = .ok (d', name, offset)) :
    d'.records = d.records := by
  obtain ⟨rotated, hrotate, h⟩ := of_bind h
  have hkeep : rotated.records = d.records := by
    unfold Draft.makeRoom at hrotate
    split at hrotate
    · exact rotate_records hrotate
    · cases hrotate
      rfl
  split at h
  · cases h
  · obtain ⟨rfl, _⟩ := Prod.mk.inj (Except.ok.inj h)
    exact hkeep

theorem packIndex_records (d : Draft Digest) (name : String) : (d.packIndex name).1.records = d.records := by
  unfold Draft.packIndex
  split <;> rfl

theorem importPack_records {pack : String} {file : Bytes}
    (h : importPack reuseKey previous pack file d = .ok (d', name)) : d'.records = d.records := by
  unfold importPack at h
  split at h
  · obtain ⟨rfl, _⟩ := Prod.mk.inj (Except.ok.inj h)
    rfl
  · dsimp only at h
    obtain ⟨-, h⟩ := of_guard h
    obtain ⟨rfl, _⟩ := Prod.mk.inj (Except.ok.inj h)
    rfl

theorem placeBlock_records {file : Bytes} {block : Block Digest} {offset : Int}
    (h : placeBlock reuseKey incremental previous file d block = .ok (d', name, offset)) : d'.records = d.records := by
  unfold placeBlock at h
  split at h
  · obtain ⟨⟨linked, _⟩, hlink, h⟩ := of_bind h
    obtain ⟨rfl, _⟩ := Prod.mk.inj (Except.ok.inj h)
    exact importPack_records hlink
  · dsimp only at h
    obtain ⟨-, h⟩ := of_guard h
    obtain ⟨⟨written, _, _⟩, hwrite, h⟩ := of_bind h
    obtain ⟨rfl, _⟩ := Prod.mk.inj (Except.ok.inj h)
    exact write_records hwrite

theorem reuseBlock_records {source : Files String Bytes} {block : Block Digest}
    (h : reuseBlock reuseKey incremental previous source d block = .ok d') :
    d'.objects = d.objects ∧ d'.blocks.length = d.blocks.length + 1 := by
  unfold reuseBlock at h
  split at h
  · cases h
  · obtain ⟨⟨placed, name, offset⟩, hplaced, h⟩ := of_bind h
    cases h
    have hkeep := Prod.mk.inj ((packIndex_records placed name).trans (placeBlock_records hplaced))
    exact ⟨hkeep.1, by rw [← hkeep.2]; exact length_append⟩

theorem reuseBlocks_records {source : Files String Bytes} : ∀ {blocks : List (Block Digest)} {d d' : Draft Digest},
    reuseBlocks reuseKey incremental previous source blocks d = .ok d' →
    d'.objects = d.objects ∧ d'.blocks.length = d.blocks.length + blocks.length
  | [], d, d', h => by
    cases h
    exact ⟨rfl, rfl⟩
  | block :: rest, d, d', h => by
    obtain ⟨next, hnext, hrest⟩ := of_bind h
    obtain ⟨hobjects, hblocks⟩ := reuseBlock_records hnext
    obtain ⟨hobjects', hblocks'⟩ := reuseBlocks_records hrest
    exact ⟨hobjects'.trans hobjects, by rw [hblocks', hblocks, length_cons]; omega⟩

end

section
variable {Digest : Type} [LinearOrder Digest] {content : Content Digest}
variable {reuseKey : String → String} {options : BuildOptions} {previous : Option (Nat × Resolver Digest)}
  {ref : ObjectRef Digest} {r : Resolver Digest}
variable {objects : Files Digest Bytes} {references : List (Digest × Nat)} {files : Store Digest}
  {object : Object Digest}

omit [LinearOrder Digest] in
theorem encodeBlocks_records : ∀ {blocks : List Bytes} {rawOffset objectBlocks : Nat} {d d' : Draft Digest}
    {total count : Nat}, encodeBlocks content blocks rawOffset objectBlocks d = .ok (d', total, count) →
    d'.objects = d.objects ∧ d'.blocks.length = d.blocks.length + blocks.length ∧
      total = rawOffset + blocks.flatten.length
  | [], _, _, d, d', _, _, h => by
    obtain ⟨rfl, hrest⟩ := Prod.mk.inj (Except.ok.inj h)
    exact ⟨rfl, rfl, (Prod.mk.inj hrest).1.symm⟩
  | raw :: rest, _, _, d, d', _, _, h => by
    obtain ⟨⟨written, name, offset⟩, hwrite, h⟩ := of_bind h
    obtain ⟨-, h⟩ := of_guard h
    have hkeep := Prod.mk.inj ((packIndex_records written name).trans (write_records hwrite))
    obtain ⟨hobjects, hblocks, htotal⟩ := encodeBlocks_records h
    refine ⟨hobjects.trans hkeep.1, ?_, by rw [htotal, flatten_cons, length_append]; omega⟩
    rw [hblocks, ← hkeep.2, length_cons, Nat.add_comm rest.length 1, ← Nat.add_assoc]
    exact congrArg (· + rest.length) length_append

theorem encodeObject_records
    {d d' : Draft Digest} (h : encodeObject content reuseKey options objects previous ref d = .ok d') :
    d'.objects.map Record.digest = d.objects.map Record.digest ++ [ref.sha256] := by
  obtain ⟨reused, _, h⟩ := of_bind h
  cases reused with
  | some found =>
    obtain ⟨generation, r, object⟩ := found
    obtain ⟨next, hnext, h⟩ := of_bind h
    cases h
    simp [Draft.addObject, encodeObjectV3, (reuseBlocks_records hnext).1]
  | none =>
    obtain ⟨data, _, h⟩ := of_bind h
    obtain ⟨⟨next, rawOffset, count⟩, hnext, h⟩ := of_bind h
    obtain ⟨-, h⟩ := of_guard h
    cases h
    simp [Draft.addObject, encodeObjectV3, (encodeBlocks_records hnext).1]

theorem encodeObjects_records : ∀ {rows : List (Digest × Nat)} {d d' : Draft Digest},
    encodeObjects content reuseKey options objects previous rows d = .ok d' →
    d'.objects.map Record.digest = d.objects.map Record.digest ++ rows.map Prod.fst
  | [], d, d', h => by
    cases h
    simp
  | (digest, rawBytes) :: rest, d, d', h => by
    obtain ⟨next, hnext, hrest⟩ := of_bind h
    rw [encodeObjects_records hrest, encodeObject_records hnext]
    simp

theorem buildDirectory_records {directory : Directory Digest}
    (h : buildDirectory content reuseKey options objects previous references = .ok directory) :
    ∃ index packs, directory = ⟨.v3 index, packs⟩ ∧ index.info.generation = options.suffix ∧
      ∀ digest, digest ∈ index.objects.map Record.digest → digest ∈ references.map Prod.fst := by
  obtain ⟨d, hd, h⟩ := of_bind h
  cases h
  refine ⟨_, _, rfl, rfl, fun digest hmem => ?_⟩
  rw [encodeObjects_records hd] at hmem
  have hperm : (orderByDigest references).Perm references := perm_insertionSort _ _
  simpa [Draft.empty] using (hperm.map Prod.fst).mem_iff.mp (by simpa [Draft.empty] using hmem)

/-! ## The references -/

def Referenced (files : Store Digest) (digest : Digest) : Prop :=
  ∃ path manifest, files.listed.get path = some manifest ∧
    ∃ part ∈ manifest.parts, part.object.sha256 = digest

omit [LinearOrder Digest] in
theorem rowLengths_digests : ∀ {rows : List (Digest × Option Nat)} {lengths : List (Digest × Nat)},
    rowLengths rows = .ok lengths → lengths.map Prod.fst = rows.map Prod.fst
  | [], lengths, h => by
    cases h
    rfl
  | (_, none) :: _, _, h => by cases h
  | (digest, some rawBytes) :: rest, lengths, h => by
    unfold rowLengths at h
    split at h
    · cases h
    · next found hfound =>
      cases h
      simp [rowLengths_digests hfound]

theorem foldReferences_only : ∀ (refs : List (ObjectRef Digest)) (rows : Files Digest (Option Nat))
    {digest : Digest}, ((refs.foldl addReference rows).get digest).isSome →
    (rows.get digest).isSome ∨ ∃ ref ∈ refs, ref.sha256 = digest
  | [], _, _, h => .inl h
  | ref :: rest, rows, digest, h => by
    rcases foldReferences_only rest _ h with hrow | ⟨found, hfound, hd⟩
    · unfold addReference at hrow
      rw [get_set] at hrow
      split at hrow
      · next heq => exact .inr ⟨ref, .head _, heq.symm⟩
      · exact .inl hrow
    · exact .inr ⟨found, mem_cons_of_mem _ hfound, hd⟩

theorem buildReferenceIndex_referenced (h : buildReferenceIndex files = .ok references) {digest : Digest}
    (hd : digest ∈ references.map Prod.fst) : Referenced files digest := by
  obtain ⟨-, h⟩ := of_guard h
  rw [rowLengths_digests h] at hd
  obtain ⟨row, hrow⟩ := (Files.mem_names _).mp hd
  rcases foldReferences_only _ _ (show ((referenceRows files.listed.entries).get digest).isSome = true by
    rw [hrow]; rfl) with hempty | ⟨ref, href, hsha⟩
  · simp at hempty
  · obtain ⟨⟨path, manifest⟩, hentry, hobject⟩ := mem_flatMap.mp href
    obtain ⟨part, hpart, rfl⟩ := mem_map.mp hobject
    exact ⟨path, manifest, (get_eq_some_iff _).mpr hentry, part, hpart, hsha⟩

/-! ## What a resolver serves -/

structure Serves (content : Content Digest) (r : Resolver Digest) (ref : ObjectRef Digest) (data : Bytes) :
    Prop where
  has : r.hasObject ref = true
  readAt : ∀ size offset cache, Cached content r cache →
    (r.readAt content ref size offset cache).1 = sliceAt data size offset ∧
      Cached content r (r.readAt content ref size offset cache).2
  stream : ∃ s, r.openObject ref = .ok s ∧ ∀ calls, (∀ call ∈ calls, Cached content r call.2) →
    (r.streamReads content calls s).map Prod.fst = piecesOf data (calls.map Prod.fst) ∧
      ∀ left ∈ r.streamReads content calls s, Cached content r left.2

/-- The object is reported as not packed. -/
structure NotPacked (content : Content Digest) (r : Resolver Digest) (ref : ObjectRef Digest) : Prop where
  has : r.hasObject ref = false
  readAt : ∀ size offset cache, 0 ≤ offset → 0 < size →
    r.readAt content ref size offset cache = (([], some (.failed errObjectNotPacked)), cache)
  stream : r.openObject ref = .error (.failed errObjectNotPacked)

variable {data : Bytes}

theorem serves_of_complete (h : Indexed r object) (hc : Complete content r object data)
    (hf : r.findObject ref = .ok object) (hd : ref.sha256 = object.sha256) : Serves content r ref data := by
  refine ⟨?_, fun size offset cache hcache => readAt_spec h hc hf size offset hcache, ?_⟩
  · unfold Resolver.findObject at hf
    unfold Resolver.hasObject
    rw [hd, h.found] at hf ⊢
    dsimp only at hf ⊢
    obtain ⟨heq, hf⟩ := of_guard hf
    simpa using heq
  · obtain ⟨hopen, hon⟩ := openObject_on content h hf hd
    exact ⟨_, hopen, fun calls hcalls => streamReads_spec h hc calls hon hcalls⟩

theorem notPacked_of_lookup (h : r.lookupObject ref.sha256 = .ok none) : NotPacked content r ref := by
  have hfind : r.findObject ref = .error (.failed errObjectNotPacked) := by
    unfold Resolver.findObject
    rw [h]
  refine ⟨?_, fun size offset cache ho hs => ?_, ?_⟩
  · unfold Resolver.hasObject
    rw [h]
  · unfold Resolver.readAt
    rw [if_neg (by omega), if_neg (by omega), hfind]
  · unfold Resolver.openObject
    rw [hfind]

theorem readObject_finds {size : Nat} (h : r.readObject content size ref = .ok data) :
    ∃ object, r.findObject ref = .ok object := by
  unfold Resolver.readObject Resolver.openObject at h
  cases hf : r.findObject ref with
  | error e => simp [hf] at h
  | ok object => exact ⟨object, rfl⟩

theorem findObject_ok (h : r.findObject ref = .ok object) :
    r.lookupObject ref.sha256 = .ok (some object) ∧ object.rawBytes = ref.rawBytes := by
  unfold Resolver.findObject at h
  split at h
  · cases h
  · cases h
  · next found hfound =>
    obtain ⟨hraw, h⟩ := of_guard h
    cases h
    exact ⟨hfound, not_not.mp hraw⟩

/-! ## The candidate -/

theorem describeCandidate_ok {index : IndexV3 Digest} {packs : Files String Bytes}
    {candidate : Generation Digest} (h : describeCandidate content files ⟨.v3 index, packs⟩ = .ok candidate) :
    openGeneration 0 none ⟨.v3 index, packs⟩ = .ok ⟨.v3 index, packs, 0⟩ ∧ Validated index ∧
      verifyPositions content ⟨.v3 index, packs, 0⟩ index.info.objectCount 0 [] = .ok () ∧
      ∀ path manifest, files.listed.get path = some manifest → ∀ part ∈ manifest.parts,
        ∃ data, (resolverReader content ⟨.v3 index, packs, 0⟩).openObject part.object = .ok data := by
  obtain ⟨r, hopen, h⟩ := of_bind h
  obtain ⟨sources, _, h⟩ := of_bind h
  obtain ⟨_, hverify, h⟩ := of_bind h
  obtain ⟨packed, _, h⟩ := of_bind h
  obtain ⟨recovery, _, h⟩ := of_bind h
  obtain ⟨_, hlive, _⟩ := of_bind h
  obtain ⟨rfl, hvalid⟩ := openGeneration_v3 hopen
  refine ⟨hopen, hvalid, ?_, fun path manifest hm part hpart => ?_⟩
  · unfold verifyGeneration at hverify
    obtain ⟨r', hopen', hpositions⟩ := of_bind hverify
    obtain ⟨rfl, _⟩ := openGeneration_v3 hopen'
    exact hpositions
  · have hstored := verifyLive_ok hlive path manifest hm
    unfold verifyStoredManifest at hstored
    cases hr : readParts (resolverReader content ⟨.v3 index, packs, 0⟩) manifest.parts with
    | error e => simp [hr] at hstored
    | ok whole => exact readParts_opens hr part hpart

theorem Complete.withCache {index : IndexFile Digest} {packs : Files String Bytes} {cacheBytes : Nat}
    (cacheBytes' : Nat) (h : Complete content ⟨index, packs, cacheBytes⟩ object data) :
    Complete content ⟨index, packs, cacheBytes'⟩ object data := by
  have hsame : ∀ blocks, leading content ⟨index, packs, cacheBytes'⟩ blocks =
      leading content ⟨index, packs, cacheBytes⟩ blocks := by
    intro blocks
    induction blocks with
    | nil => rfl
    | cons block rest ih =>
      have hfetch : Resolver.fetchBlock content ⟨index, packs, cacheBytes'⟩ block =
          Resolver.fetchBlock content ⟨index, packs, cacheBytes⟩ block := rfl
      simp only [leading, hfetch, ih]
  exact ⟨by rw [hsame]; exact h.all, by rw [hsame]; exact h.whole⟩

/-- A resolver on the generation `g` serves exactly the objects the manifests refer to. -/
def RoundTrips (content : Content Digest) (files : Store Digest) (cacheBytes g : Nat)
    (directories : Files Nat (Directory Digest)) : Prop :=
  ∃ directory r, directories.get g = some directory ∧
    openGeneration cacheBytes (some g) directory = .ok r ∧
    (∀ path manifest, files.listed.get path = some manifest → ∀ part ∈ manifest.parts,
      ∃ data, part.object.Names content data ∧ Serves content r part.object data) ∧
    ∀ ref, ¬ Referenced files ref.sha256 → NotPacked content r ref

theorem candidate_roundTrips {directory : Directory Digest} {candidate : Generation Digest}
    (hrefs : buildReferenceIndex files = .ok references)
    (hbuild : buildDirectory content reuseKey options files.objects previous references = .ok directory)
    (hcheck : describeCandidate content files directory = .ok candidate) (cacheBytes : Nat)
    (directories : Files Nat (Directory Digest)) :
    RoundTrips content files cacheBytes options.suffix (directories.set options.suffix directory) := by
  obtain ⟨index, packs, rfl, hgen, hdigests⟩ := buildDirectory_records hbuild
  obtain ⟨hopen, hvalid, hverify, hlive⟩ := describeCandidate_ok hcheck
  refine ⟨_, ⟨.v3 index, packs, cacheBytes⟩, get_set_self _ _ _, ?_, ?_, ?_⟩
  · rw [← hgen]
    exact openGeneration_again hopen
  · intro path manifest hm part hpart
    -- the live manifests were read through the candidate, so the object was found
    obtain ⟨read, hread⟩ := hlive path manifest hm part hpart
    obtain ⟨object, hfind⟩ := readObject_finds hread
    obtain ⟨hlookup, hraw⟩ := findObject_ok hfind
    rw [lookupObject_v3 rfl] at hlookup
    rcases lookup_spec hvalid part.object.sha256 with ⟨k, object', hk, hd, hfound⟩ | ⟨_, hnone⟩
    · rw [hfound] at hlookup
      obtain rfl : object' = object := by simpa using hlookup
      have hkcount := (objectAt_ok hk).2.2.1
      obtain ⟨data, hcomplete, hsha⟩ := verifyPositions_ok hvalid rfl cached_nil hverify k object'
        (Nat.zero_le _) (by omega) hk
      obtain ⟨hidx0, _⟩ := hvalid.indexed (r := ⟨.v3 index, packs, 0⟩) rfl hk
      obtain ⟨hidx, _⟩ := hvalid.indexed (r := ⟨.v3 index, packs, cacheBytes⟩) rfl hk
      have hlen := hidx0.rawBytes hcomplete
      refine ⟨data, ⟨by rw [hsha, hd], by omega⟩, ?_⟩
      exact serves_of_complete hidx (hcomplete.withCache cacheBytes) hfind hd.symm
    · rw [hnone] at hlookup
      cases hlookup
  · intro ref hnot
    refine notPacked_of_lookup ?_
    rcases lookup_spec hvalid ref.sha256 with ⟨k, object, hk, hd, _⟩ | ⟨_, hnone⟩
    · obtain ⟨raw, hget, hraw⟩ := Option.map_eq_some_iff.mp (objectAt_ok hk).1
      have hmem := hdigests ref.sha256 (mem_map.mpr ⟨raw, mem_of_getElem? hget, hraw.trans hd⟩)
      exact absurd (buildReferenceIndex_referenced hrefs hmem) hnot
    · exact hnone

/-! ## `Build` -/

theorem currentPublicationForBuild_files (files : Store Digest) (random : Nat) :
    Keeps (fun s => s.files = files) (currentPublicationForBuild content random) := by
  have hI : ∀ s s' : PackStore Digest, s.files = files → SameContents s s' → s'.files = files :=
    fun _ _ h hs => hs.files.trans h
  have hcurrent : ∀ name, Keeps (fun s : PackStore Digest => s.files = files) (publishCurrent name) :=
    fun name => replaceAtomically_keeps _ fun _ h => h
  refine currentPublicationForBuild_keeps hI (fun marker updateHead => ?_) random
  refine .bind' (.read' _) fun _ => .bind' (.ofExcept' _) fun _ => .ite' ?_ ?_
  · refine .bind' (publishPublicationHead_keeps hI marker) fun _ => ?_
    exact .bind' (hcurrent _) fun _ => .pure' _
  · exact .bind' (hcurrent _) fun _ => .pure' _

theorem openPrevious_keeps {I : DiskStore Digest → Prop} (generation : Option Nat) :
    Keeps I (openPrevious generation) := by
  cases generation with
  | none => exact .pure' _
  | some generation =>
    refine .bind' (.read' _) fun directory => ?_
    cases directory with
    | none => exact .throw' _
    | some directory => exact .bind' (.ofExcept' _) fun _ => .pure' _

variable (content) in
theorem build_roundTrips (reuseKey : String → String) (options : BuildOptions) (files : Store Digest) (cacheBytes : Nat) :
    SpecOr (fun s => s.store.files = files) (build content reuseKey options) (fun g s => RoundTrips content files cacheBytes g s.directories)
      (fun _ => True) := by
  have keep : ∀ {α β : Type} {x : Prog (DiskStore Digest) String α} {f : α → Prog (DiskStore Digest) String β}
      {Q : β → DiskStore Digest → Prop}, Keeps (fun s : DiskStore Digest => s.store.files = files) x →
      (∀ a, SpecOr (fun s => s.store.files = files) (f a) Q (fun _ => True)) →
      SpecOr (fun s => s.store.files = files) (x >>= f) Q (fun _ => True) :=
    fun hx hf => SpecOr.after (fun _ _ => trivial) hx hf
  refine keep (.point' _) fun _ => keep ?_ fun base => ?_
  · refine .onPart' fun s hs => ?_
    exact ((currentPublicationForBuild_files files _).pre (held hs))
  obtain ⟨previousGeneration, previousSequence⟩ := base
  refine keep (.point' _) fun _ => .at' fun s hs => .readAt (.checked (fun _ _ _ => trivial) fun references hrefs => ?_)
  rw [hs] at hrefs
  refine .pre ?_ fun t ht => ht ▸ hs
  refine keep (openPrevious_keeps _) fun previous => keep (.ofExcept' _) fun options' => ?_
  refine keep (.point' _) fun _ => keep (.point' _) fun _ => .at' fun s hs => .readAt ?_
  refine .checked (fun _ _ _ => trivial) fun directory hdirectory => .readAt ?_
  refine .checked (fun _ _ _ => trivial) fun candidate hcandidate => ?_
  rw [hs] at hdirectory hcandidate
  refine .bind' (M := fun _ s => RoundTrips content files cacheBytes options'.suffix s.directories)
    (SpecOr.effect' (fun _ _ => trivial) fun t _ => candidate_roundTrips hrefs hdirectory hcandidate cacheBytes t.directories)
    fun _ => ?_
  -- publishing works on the other half of the store
  refine .bind' (.onPart' fun s hs => ?_) fun _ => .pure' _ fun _ h => h
  exact ((Keeps.of_forall (fun _ => hs)).pre fun _ _ => hs).mono (fun _ _ h => h) (fun _ _ => trivial)

/-- Round trip of `Build`: whenever it returns, under whatever options and however the
    objects reached the new generation, a resolver opened on that generation returns
    for every object a manifest refers to exactly the bytes with its digest, through
    `ReadAt` at every offset and size and through a stream with every sequence of
    buffers, and reports every other object as not packed. -/
theorem build_round_trip (content : Content Digest) (reuseKey : String → String) (options : BuildOptions)
    (fs : List Fault) (s : DiskStore Digest) (g : Nat) (s' : DiskStore Digest) (fs' : List Fault)
    (h : build content reuseKey options fs s = (.done g, s', fs')) (cacheBytes : Nat) :
    RoundTrips content s.store.files cacheBytes g s'.directories := by
  have hspec := build_roundTrips content reuseKey options s.store.files cacheBytes fs s rfl
  rw [h] at hspec
  exact hspec

end

/-! ## A store that is packed, retired and packed again -/

def number : Bytes → Nat
  | [] => 0
  | byte :: rest => byte.toNat + 1 + 256 * number rest

theorem number_injective : Function.Injective number := by
  intro a
  induction a with
  | nil =>
    intro b h
    cases b with
    | nil => rfl
    | cons y ys =>
      simp only [number] at h
      omega
  | cons x xs ih =>
    intro b h
    cases b with
    | nil =>
      simp only [number] at h
      omega
    | cons y ys =>
      simp only [number] at h
      have hx := x.toNat_lt
      have hy := y.toNat_lt
      have hhead : x = y := UInt8.toNat_inj.mp (by omega)
      have htail : xs = ys := ih (by omega)
      rw [hhead, htail]

def sampleContent : Content Nat where
  sha256 := number
  sha256_injective := number_injective
  compress data := if data = [7, 7, 7, 7] then [0] else 1 :: data
  decompress
    | [0] => some [7, 7, 7, 7]
    | 1 :: data => some data
    | _ => none
  decompress_compress data := by
    by_cases h : data = [7, 7, 7, 7] <;> simp [h]

def sampleKey (name : String) : String := String.ofList (name.toList.filter (· ≠ '/'))

def sampleRef (data : Bytes) : ObjectRef Nat := ⟨number data, data.length, 0⟩

def sampleManifest : Manifest Nat where
  kind := .foldV1
  session := ⟨"a", "", "", "a", true⟩
  source := ⟨12, number [7, 7, 7, 7, 1, 2, 3, 4, 5, 6, 7, 8]⟩
  settings := ⟨0, 0, 0, 0, 0, 0⟩
  parts := [⟨.residual, "", sampleRef [7, 7, 7, 7]⟩, ⟨.residual, "", sampleRef [1, 2, 3, 4, 5, 6, 7, 8]⟩]

def looseStore : DiskStore Nat where
  store :=
    { files := ⟨(Files.empty.set (number [7, 7, 7, 7]) [0]).set (number [1, 2, 3, 4, 5, 6, 7, 8])
        [1, 1, 2, 3, 4, 5, 6, 7, 8], true, Files.empty.set "a.json" sampleManifest, .empty⟩
      generations := .empty, head := none, current := none, storeID := none, resolvers := [] }
  directories := .empty

def packedStore : DiskStore Nat := (build sampleContent sampleKey ⟨⟨1, 7, .small⟩, true, 4, 6⟩ [] looseStore).2.1

def retiredStore : DiskStore Nat :=
  { packedStore with
    store := { packedStore.store with files := { packedStore.store.files with objects := .empty } } }

theorem build_round_trip_linked_packs : (build sampleContent sampleKey ⟨⟨2, 7, .small⟩, true, 4, 6⟩ [] retiredStore).1 = .done 2 ∧
    RoundTrips sampleContent retiredStore.store.files 64 2
      (build sampleContent sampleKey ⟨⟨2, 7, .small⟩, true, 4, 6⟩ [] retiredStore).2.1.directories := by
  have hdone : (build sampleContent sampleKey ⟨⟨2, 7, .small⟩, true, 4, 6⟩ [] retiredStore).1 = .done 2 := by
    decide +kernel
  exact ⟨hdone, build_round_trip sampleContent sampleKey _ [] retiredStore 2 _ _ (Prod.ext hdone rfl) 64⟩

end CodexFold.Pack.Layout
