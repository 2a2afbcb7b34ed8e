import CodexFold.Pack.Recovery

/- Build and Open make progress from every coherent store.

   Each publication step of a Build takes the store from one phase to the next, so
   wherever it stops the store is coherent (`build_coherent`). From a coherent store
   the next Build completes what is half published and returns (`build_returns`),
   and Open returns if there is a `CURRENT` (`openStore_returns`). -/
namespace CodexFold.Pack
open Foundation Fold Option

section
variable {Digest : Type} [DecidableEq Digest] {content : Content Digest} {ever : Prop}
  {files : Store Digest} {generations : Files Nat (Generation Digest)}
  {next marker : PublishedGeneration Digest}
variable {s : PackStore Digest}

def BaseFor (previousGeneration : Option Nat) (previousSequence : Nat) (s : PackStore Digest) : Prop :=
  (previousGeneration = none ∧ previousSequence = 0 ∧ Unpublished s) ∨
    ∃ marker, previousGeneration = some marker.generation ∧ previousSequence = marker.sequence ∧ Settled marker s

theorem BaseFor.coherent {previousGeneration : Option Nat} {previousSequence : Nat}
    (hb : Basis content ever s) (h : BaseFor previousGeneration previousSequence s) : Coherent content ever s := by
  rcases h with ⟨_, _, h⟩ | ⟨marker, _, _, h⟩
  · exact ⟨hb, .inl h⟩
  · exact h.coherent hb

/-! ## What Build builds on -/

section Phases
variable {s : PackStore Digest} (random : Nat) (fs : List Fault)

theorem currentPublication_unpublished (h : Unpublished s) :
    currentPublicationForBuild content random fs s = (.done (none, 0), s, fs) := by
  simp [currentPublicationForBuild, Prog.bind_apply, h.head, h.current]

section

variable (hb : Basis content ever s)
include hb

theorem currentPublication_settled (h : Settled marker s) (hmax : marker.sequence ≠ maxSequence) :
    currentPublicationForBuild content random fs s = (.done (some marker.generation, marker.sequence), s, fs) := by
  simp [currentPublicationForBuild, Prog.bind_apply, h.head, h.current, hb.readHead h.head h.onDisk,
    hb.noSuccessor h.newest hmax, ofExcept]

theorem currentPublication_marked (h : Marked content marker next s) (hmax : marker.sequence ≠ maxSequence) :
    currentPublicationForBuild content random fs s =
      (promotePublishedGenerationLocked content next true >>= fun recovered =>
        recoveredBase "recovered pack publication identity changed after promotion" recovered) fs s := by
  simp [currentPublicationForBuild, Prog.bind_apply, h.head, h.current, hb.readHead h.head h.onDisk,
    h.successor hb hmax, ofExcept]

theorem currentPublication_headed (h : Headed content next s) : currentPublicationForBuild content random fs s =
      (recoverCurrentGenerationLocked content >>= fun recovered =>
        recoveredBase "recovered pack publication identity changed after recovery" recovered) fs s := by
  obtain ⟨generation, hget, hm⟩ := h.pending.onDisk
  have hne : next.previousGeneration ≠ some next.generation := (hb.markers _ _ _ hget hm).other
  simp [currentPublicationForBuild, Prog.bind_apply, h.head, h.pending.current,
    hb.readHead h.head h.pending.onDisk, ofExcept, hne]

omit hb in
theorem recoveredBase_settled (message : String) (hb : Basis content ever s) (h : Settled next s) :
    recoveredBase message next.generation fs s = (.done (some next.generation, next.sequence), s, fs) := by
  simp [recoveredBase, Prog.bind_apply, hb.readHead h.head h.onDisk, ofExcept, ensure]

theorem currentPublication_exhausted (hhead : s.head = some (headOf marker))
    (hdisk : HasMarker s marker.generation marker) (hcurrent : s.current = some marker.generation)
    (hmax : marker.sequence = maxSequence) : currentPublicationForBuild content random fs s =
      (.failed "pack publication sequence cannot advance", s, fs) := by
  simp [currentPublicationForBuild, Prog.bind_apply, hhead, hcurrent, hb.readHead hhead hdisk, ofExcept,
    findPublishedSuccessor, hmax]

end

end Phases

def HasRoom (s : PackStore Digest) : Prop := ∀ head, s.head = some head → head.sequence ≠ maxSequence

theorem currentPublication_completes (random : Nat) (hc : Coherent content ever s) (hroom : HasRoom s) :
    CompletesOr (· = s) (currentPublicationForBuild content random)
      (fun r t => At content ever s.files s.generations t ∧ BaseFor r.1 r.2 t) (Coherent content ever) := by
  have hb := hc.basis
  have hat : At content ever s.files s.generations s := ⟨hb, rfl, rfl⟩
  have hafter : ∀ (next : PublishedGeneration Digest) (message : String) (r : Nat),
      CompletesOr (fun t => r = next.generation ∧ At content ever s.files s.generations t ∧ Settled next t) (recoveredBase message r)
      (fun r t => At content ever s.files s.generations t ∧ BaseFor r.1 r.2 t) (Coherent content ever) := by
    refine fun next message r => .at' fun t ⟨hr, hat, hs⟩ => ?_
    subst hr
    refine .congr (fun fs => recoveredBase_settled fs message hat.basis hs) (.pure' _ fun u hu => ?_)
    exact hu ▸ ⟨hat, .inr ⟨next, rfl, rfl, hs⟩⟩
  rcases hc.phase with h | ⟨marker, h⟩ | ⟨marker, next, h⟩ | ⟨next, h⟩
  · refine .congr (y := pure (none, 0)) (fun fs => currentPublication_unpublished random fs h) ?_
    exact .pure' _ fun t ht => by rw [ht]; exact ⟨hat, .inl ⟨rfl, rfl, h⟩⟩
  · refine .congr (fun fs => currentPublication_settled random fs hb h (hroom _ h.head)) (.pure' _ fun t ht => ?_)
    rw [ht]
    exact ⟨hat, .inr ⟨marker, rfl, rfl, h⟩⟩
  · have hstart : ∀ t, t = s → At content ever s.files s.generations t ∧ Marked content marker next t :=
      fun t ht => by rw [ht]; exact ⟨hat, h⟩
    refine .congr (fun fs => currentPublication_marked random fs hb h (hroom _ h.head)) ?_
    exact .bind' (promote_marked.pre hstart) (hafter next _)
  · have hstart : ∀ t, t = s → At content ever s.files s.generations t ∧ Headed content next t :=
      fun t ht => by rw [ht]; exact ⟨hat, h⟩
    refine .congr (fun fs => currentPublication_headed random fs hb h) ?_
    exact .bind' ((recover_headed (hroom _ h.head)).pre hstart) (hafter next _)

theorem currentPublication_base (random : Nat) (hc : Coherent content ever s) :
    SpecOr (· = s) (currentPublicationForBuild content random)
      (fun r t => At content ever s.files s.generations t ∧ BaseFor r.1 r.2 t) (Coherent content ever) := by
  by_cases hroom : HasRoom s
  · exact (currentPublication_completes random hc hroom).spec
  -- at the last sequence it refuses
  intro fs t ht
  rw [ht]
  have hb := hc.basis
  simp only [HasRoom, not_forall, not_not] at hroom
  obtain ⟨head, hhead, hmax⟩ := hroom
  have heq : ∀ {marker : PublishedGeneration Digest}, s.head = some (headOf marker) → marker.sequence = maxSequence :=
    fun h => by rw [← hmax, some.inj (hhead.symm.trans h)]; rfl
  rcases hc.phase with h | ⟨marker, h⟩ | ⟨marker, next, h⟩ | ⟨next, h⟩
  · rw [h.head] at hhead
    cases hhead
  · rw [currentPublication_exhausted random fs hb h.head h.onDisk h.current (heq h.head)]
    exact hc
  · rw [currentPublication_exhausted random fs hb h.head h.onDisk h.current (heq h.head)]
    exact hc
  · rw [currentPublication_headed random fs hb h, Prog.bind_apply, recover_exhausted hb h (heq h.head)]
    exact hc

/-! ## Publishing a new generation -/

structure Placed (content : Content Digest) (ever : Prop) (name : Nat) (previousGeneration : Option Nat)
    (previousSequence : Nat) (s : PackStore Digest) : Prop where
  basis : Basis content ever s
  base : BaseFor previousGeneration previousSequence s
  directory : ∃ generation, s.generations.get name = some generation ∧ generation.marker = none ∧
    Reconstructs content s.files.listed generation

variable {name : Nat} {previousGeneration : Option Nat} {previousSequence : Nat}

omit [DecidableEq Digest] in
theorem hasMarker_rename (hfree : s.generations.get name = none)
    {candidate : Generation Digest} (hmarker : candidate.marker = none) (n : Nat) (m : PublishedGeneration Digest) :
    HasMarker { s with generations := s.generations.set name candidate } n m ↔ HasMarker s n m := by
  by_cases hn : n = name
  · subst hn
    simp [HasMarker, hfree, hmarker]
  · simp [HasMarker, hn]

omit [DecidableEq Digest] in
theorem updateGeneration_mark {generation : Generation Digest} (hget : s.generations.get name = some generation)
    (hnone : generation.marker = none) (next : PublishedGeneration Digest) :
    s.updateGeneration name (fun g => { g with marker := some next }) =
        { s with generations := s.generations.set name { generation with marker := some next } } ∧
      ∀ n m, HasMarker (s.updateGeneration name fun g => { g with marker := some next }) n m ↔
        (n = name ∧ m = next) ∨ HasMarker s n m := by
  refine ⟨by simp [PackStore.updateGeneration, hget], fun n m => ?_⟩
  by_cases hn : n = name
  · subst hn
    simp [HasMarker, PackStore.updateGeneration, hget, hnone, eq_comm]
  · simp [HasMarker, PackStore.updateGeneration, hget, hn]

section

variable (h : Placed content ever name previousGeneration previousSequence s)
include h

theorem Placed.coherent : Coherent content ever s :=
  h.base.coherent h.basis

omit h in
omit [DecidableEq Digest] in
theorem BaseFor.same {s' : PackStore Digest} (h : BaseFor previousGeneration previousSequence s)
    (hhead : s'.head = s.head) (hcurrent : s'.current = s.current)
    (hmarkers : ∀ n m, HasMarker s' n m ↔ HasMarker s n m) : BaseFor previousGeneration previousSequence s' := by
  rcases h with ⟨hp, hq, h⟩ | ⟨marker, hp, hq, h⟩
  · refine .inl ⟨hp, hq, by rw [hhead, h.head], by rw [hcurrent, h.current], fun n m hm => ?_⟩
    exact h.markers n m ((hmarkers n m).mp hm)
  · refine .inr ⟨marker, hp, hq, by rw [hhead, h.head], (hmarkers _ _).mpr h.onDisk,
      by rw [hcurrent, h.current], fun n m hm => ?_⟩
    exact h.newest n m ((hmarkers n m).mp hm)

omit h in
theorem Placed.rename (hb : Basis content ever s)
    (hbase : BaseFor previousGeneration previousSequence s) (hfree : s.generations.get name = none)
    {candidate : Generation Digest} (hsealed : Sealed content candidate)
    (hrec : Reconstructs content s.files.listed candidate) (hmarker : candidate.marker = none) :
    Placed content ever name previousGeneration previousSequence
      { s with generations := s.generations.set name candidate } := by
  refine ⟨⟨hb.backed, ?_, ?_, hb.made⟩, hbase.same rfl rfl (hasMarker_rename hfree hmarker), candidate, by simp, hmarker, hrec⟩
  · intro n generation hget
    simp only [get_set] at hget
    split at hget
    · cases hget
      exact hsealed
    · exact hb.sealed n generation hget
  · intro n generation m hget hm
    simp only [get_set] at hget
    split at hget
    · cases hget
      rw [hmarker] at hm
      cases hm
    · exact hb.markers n generation m hget hm

theorem Placed.identify (hnone : s.storeID = none) (random : Nat) :
    Placed content ever name previousGeneration previousSequence { s with storeID := some random } := by
  refine ⟨⟨h.basis.backed, h.basis.sealed, fun n generation m hget hm => ?_, h.basis.made⟩,
    h.base.same rfl rfl fun _ _ => Iff.rfl, h.directory⟩
  exact absurd hnone (h.basis.markers n generation m hget hm).known

end

def newMarker (identity name : Nat) (previousGeneration : Option Nat) (previousSequence : Nat)
    (recovery : Recovery Digest) : PublishedGeneration Digest where
  storeID := some identity
  generation := name
  sequence := previousSequence + 1
  previousGeneration := previousGeneration
  recovery := recovery

theorem Placed.predecessor (h : Placed content ever name previousGeneration previousSequence s)
    {generation : Generation Digest} (hget : s.generations.get name = some generation) (hnone : generation.marker = none) :
    (∀ n m, HasMarker s n m → m.sequence ≤ previousSequence ∨ m.sequence = 1) ∧
      s.current = previousGeneration ∧ (previousSequence = 0 ↔ previousGeneration = none) ∧
      ∀ p, previousGeneration = some p → p ≠ name ∧ (s.generations.get p).isSome = true := by
  rcases h.base with ⟨rfl, rfl, hu⟩ | ⟨marker, rfl, rfl, hset⟩
  · exact ⟨fun n m hm => .inr (hu.markers n m hm), hu.current, by simp, by simp⟩
  · obtain ⟨g, hg, hm⟩ := hset.onDisk
    have hpos := (h.basis.markers _ _ _ hg hm).positive
    refine ⟨fun n m hm => .inl (hset.newest n m hm), hset.current, ⟨fun h0 => by omega, by simp⟩, ?_⟩
    rintro p ⟨⟩
    refine ⟨?_, by rw [hg]; rfl⟩
    rintro rfl
    rw [hget] at hg
    cases hg
    rw [hnone] at hm
    cases hm

theorem Placed.mark (h : Placed content ever name previousGeneration previousSequence s) {identity : Nat}
    (hid : s.storeID = some identity) {generation : Generation Digest}
    (hget : s.generations.get name = some generation) {recovery : Recovery Digest}
    (hrecovery : generation.recovery = some recovery) :
    let next := newMarker identity name previousGeneration previousSequence recovery
    let s' := s.updateGeneration name (fun g => { g with marker := some next })
    Coherent content ever s' ∧ Pending content next s' := by
  intro next s'
  obtain ⟨generation', hget', hnone, hrec⟩ := h.directory
  obtain rfl : generation' = generation := by rw [hget] at hget'; exact (some.inj hget').symm
  obtain ⟨hs', hmarkers⟩ : s' = _ ∧ _ := updateGeneration_mark hget hnone next
  have honDisk : HasMarker s' next.generation next := (hmarkers _ _).mpr (.inl ⟨rfl, rfl⟩)
  obtain ⟨hle, hcurrent, hzero, hprevious⟩ := h.predecessor hget hnone
  have hbasis : Basis content ever s' := by
    rw [hs']
    refine ⟨h.basis.backed, fun n g hg => ?_, fun n g m hg hm => ?_, h.basis.made⟩
    · simp only [get_set] at hg
      split at hg
      · cases hg
        have hseal := h.basis.sealed name generation' hget
        exact ⟨hseal.valid, hseal.recovery⟩
      · exact h.basis.sealed n g hg
    · simp only [get_set] at hg
      split at hg
      · next hn =>
        cases hg
        cases hm
        refine ⟨hn.symm, Nat.le_add_left 1 previousSequence, ?_, ?_, hrecovery, hid.symm, by simp [hid]⟩
        · show previousSequence + 1 = 1 ↔ previousGeneration = none
          rw [← hzero]
          omega
        · rw [hn]
          exact fun he => (hprevious name he).1 rfl
      · exact h.basis.markers n g m hg hm
  have hpending : Pending content next s' := by
    refine ⟨honDisk, by rw [hs']; exact hcurrent, fun n hn => ?_, fun n m hm => ?_, fun g hg => ?_⟩
    · rw [hs'] at hn ⊢
      obtain ⟨hne, hsome⟩ := hprevious n (hcurrent.symm.trans hn)
      simpa [hne] using hsome
    · rcases (hmarkers n m).mp hm with ⟨_, rfl⟩ | hm
      · exact Nat.le_refl _
      · have := hle n m hm
        show m.sequence ≤ previousSequence + 1
        omega
    · rw [hs'] at hg ⊢
      simp only [next, newMarker, get_set_self] at hg
      cases hg
      exact hrec
  refine ⟨⟨hbasis, ?_⟩, hpending⟩
  rcases h.base with ⟨rfl, rfl, hu⟩ | ⟨marker, rfl, rfl, hset⟩
  · refine .inl ⟨by rw [hs']; exact hu.head, by rw [hs']; exact hu.current, fun n m hm => ?_⟩
    rcases (hmarkers n m).mp hm with ⟨_, rfl⟩ | hm
    · rfl
    · exact hu.markers n m hm
  · refine .inr (.inr (.inl ⟨marker, next, by rw [hs']; exact hset.head,
      (hmarkers _ _).mpr (.inr hset.onDisk), by rw [hs']; exact hset.current, rfl, fun n m hm => ?_, hpending⟩))
    rcases (hmarkers n m).mp hm with ⟨_, rfl⟩ | hm
    · exact .inr rfl
    · exact .inl (hset.newest n m hm)

/-! ## The programs that publish -/

theorem loadOrCreate_placed (random : Nat) :
    CompletesOr (Placed content ever name previousGeneration previousSequence) (loadOrCreatePackStoreIdentity random)
      (fun identity s => Placed content ever name previousGeneration previousSequence s ∧ s.storeID = some identity) (Coherent content ever) := by
  refine .at' fun s h => .readAt ?_
  cases hid : s.storeID with
  | some identity => exact .pure' _ fun t ht => ht ▸ ⟨h, hid⟩
  | none =>
    refine .bind' ?_ fun _ => .pure' _ fun _ h => h
    exact .replace (fun t ht => ht ▸ ⟨h.identify hid random, rfl⟩) (held h.coherent) fun _ h => h.1.coherent

theorem markGenerationPublished_pending (random : Nat) :
    CompletesOr (Placed content ever name previousGeneration previousSequence) (markGenerationPublished random name (previousSequence + 1) previousGeneration)
      (fun next s => (Coherent content ever s ∧ Pending content next s) ∧ next.generation = name) (Coherent content ever) := by
  refine .at' fun s h => .ensure' ?_ ?_
  · rcases h.base with ⟨rfl, rfl, _⟩ | ⟨marker, rfl, rfl, hs⟩
    · rfl
    · obtain ⟨g, hg, hm⟩ := hs.onDisk
      have hpos := (h.basis.markers _ _ _ hg hm).positive
      simp
      omega
  refine .bind' ((loadOrCreate_placed random).pre (held h)) fun identity => ?_
  refine .at' fun s ⟨h, hid⟩ => .readAt ?_
  obtain ⟨generation, hget, _, _⟩ := h.directory
  obtain ⟨sources, hrecovery, _⟩ := (h.basis.sealed name generation hget).recovery
  simp only [hget, bind_some, hrecovery]
  refine .bind' ?_ fun _ => .pure' _ fun _ h => ⟨h, rfl⟩
  exact .replace (fun t ht => ht ▸ h.mark hid hget hrecovery) (held h.coherent) fun _ h => h.1

theorem publishPlaced_completes {random : Nat} :
    Completes (Placed content ever name previousGeneration previousSequence) (do
        let marker ← markGenerationPublished random name (previousSequence + 1) previousGeneration
        publishPublicationHead marker
        point "after publication head"
        publishCurrent name)
      (fun _ => Coherent content ever) (fun _ => Coherent content ever) (Coherent content ever) := by
  refine .bind' (markGenerationPublished_pending random) fun next => .at' fun s ⟨⟨hc, hp⟩, hname⟩ => ?_
  have hready : ∀ t, t = s → (At content ever s.files s.generations t ∧ Coherent content ever t) ∧ Pending content next t := by
    rintro _ rfl
    exact ⟨⟨⟨hc.basis, rfl, rfl⟩, hc⟩, hp⟩
  refine .bind' (publishPublicationHead_heads.pre hready) fun _ => ?_
  refine .point' (fun _ h => h.2.coherent h.1.basis) (fun _ h => h.2.coherent h.1.basis) ?_
  rw [← hname]
  exact publishCurrent_settles.weaken (fun _ _ h => h.2.coherent h.1.basis)

variable (options : BuildOptions)

theorem publishGeneration_coherent {candidate : Generation Digest}
    (hsealed : Sealed content candidate) (hmarker : candidate.marker = none)
    (hb : Basis content ever s) (hbase : BaseFor previousGeneration previousSequence s)
    (hrec : Reconstructs content s.files.listed candidate) :
    LeadsTo (· = s) (publishGeneration options previousGeneration previousSequence candidate) (Coherent content ever) ∧
      (s.generations.get options.suffix = none → previousSequence ≠ maxSequence →
        Returns (publishGeneration options previousGeneration previousSequence candidate) s) := by
  have he : ∀ t, t = s → Coherent content ever t := fun t ht => ht ▸ hbase.coherent hb
  by_cases hfree : s.generations.get options.suffix = none
  · have hplaced := Placed.rename hb hbase hfree hsealed hrec hmarker
    have hcoherent : ∀ t, t = { s with generations := s.generations.set options.suffix candidate } →
        Coherent content ever t := held hplaced.coherent
    constructor
    · refine Spec.readAt (SpecOr.after he (Keeps.ensure' _ _) fun _ => ?_)
      refine Spec.bind' (M := fun _ t => t = { s with generations := s.generations.set options.suffix candidate })
        (SpecOr.effect' he (fun t ht => by rw [ht])) fun _ => ?_
      refine SpecOr.point' hcoherent fun _ => ?_
      refine SpecOr.point' hcoherent fun _ => ?_
      refine SpecOr.after hcoherent (Keeps.ensure' _ _) fun _ => ?_
      exact .pre publishPlaced_completes.spec (held hplaced)
    · intro _ hmax
      refine .step (.read' _ s) (.step (.ensure' _ s (by simp [hfree])) ?_)
      refine .step (.effect' _ _ s) (.step (.point' _ _) (.step (.point' _ _) ?_))
      exact .step (.ensure' _ _ (decide_eq_true hmax)) (publishPlaced_completes.returns _ hplaced)
  · refine ⟨.readAt (.bind' (M := fun _ _ => False) ?_ nofun), fun h => absurd h hfree⟩
    have htaken := isSome_iff_ne_none.mpr hfree
    exact .ensure' _ _ (fun hnot => by simp [htaken] at hnot) he

theorem build_coherent : Keeps (Coherent content ever) (build content options) := by
  refine .bind' (.point' _) fun _ => ?_
  refine .at' fun s hc => .bind' (currentPublication_base _ hc) fun base => ?_
  have he : ∀ (t : PackStore Digest),
      At content ever s.files s.generations t ∧ BaseFor base.1 base.2 t → Coherent content ever t :=
    fun _ h => h.2.coherent h.1.basis
  refine SpecOr.point' he fun _ => SpecOr.after he (openPrevious_keeps _) fun previous => ?_
  refine .point' he fun _ => .point' he fun _ => ?_
  refine .at' fun t h => ?_
  have ht : ∀ u, u = t → Coherent content ever u := fun u hu => hu ▸ he t h
  refine Spec.readAt (SpecOr.checked ht fun candidate hcandidate => ?_)
  refine SpecOr.after ht (Keeps.ofExcept' _) fun _ => SpecOr.point' ht fun _ => ?_
  obtain ⟨hsealed, hrec, hmarker⟩ := buildCandidate_sealed hcandidate
  exact Spec.bind' (publishGeneration_coherent options hsealed hmarker h.1.basis h.2 hrec).1 fun _ => Keeps.pure' _

/-! ## Without a fault -/

theorem Coherent.hasRoom (hc : Coherent content ever s)
    (hmax : ∀ n other, HasMarker s n other → other.sequence ≠ maxSequence) : HasRoom s := by
  intro head hhead
  rcases hc.phase with h | ⟨marker, h⟩ | ⟨marker, next, h⟩ | ⟨next, h⟩
  · rw [h.head] at hhead
    cases hhead
  · exact some.inj (h.head.symm.trans hhead) ▸ hmax _ _ h.onDisk
  · exact some.inj (h.head.symm.trans hhead) ▸ hmax _ _ h.onDisk
  · exact some.inj (h.head.symm.trans hhead) ▸ hmax _ _ h.pending.onDisk

/-- A Build without a fault returns, from every coherent store: the manifest directory
    has to exist, the suffix to be new, the sizes to be within their limits and the sequence
    to have room. -/
theorem build_returns (hc : Coherent content ever s)
    (hroot : s.files.manifestRoot) (hfree : s.generations.get options.suffix = none)
    (hsizes : checkSizes options.sizes = .ok ())
    (hmax : ∀ n other, HasMarker s n other → other.sequence ≠ maxSequence) : Returns (build content options) s := by
  unfold build
  refine .step (.point' _ s) ?_
  have hcurrent := currentPublication_completes options.storeID hc (hc.hasRoom hmax)
  refine .bind' (hcurrent.returns s rfl) hcurrent.spec rfl ?_
  rintro ⟨previousGeneration, previousSequence⟩ t ⟨hat, hbase⟩
  -- the generations are those of `s`, so the bounds still hold
  have hmarkers : ∀ n other, HasMarker t n other → other.sequence ≠ maxSequence := by
    intro n other h
    rw [HasMarker, hat.generations] at h
    exact hmax n other h
  have hprevious : ∃ previous, Runs (openPrevious previousGeneration) t previous t := by
    rcases hbase with ⟨h, _, _⟩ | ⟨marker, h, _, hs⟩
    · simp only at h
      subst h
      exact ⟨none, rfl⟩
    · simp only at h
      subst h
      obtain ⟨generation, hget, _⟩ := hs.onDisk
      exact ⟨some generation.packed, by simp [openPrevious, openGeneration, Runs, Prog.bind_apply, hget]⟩
  obtain ⟨previous, hopen⟩ := hprevious
  have hseq : previousSequence ≠ maxSequence := by
    rcases hbase with ⟨_, h, _⟩ | ⟨marker, _, h, hs⟩
    · simp only at h
      rw [h]
      decide
    · simp only at h
      rw [h]
      exact hmarkers _ _ hs.onDisk
  have hbacked : Backed content t.files := hat.basis.backed
  obtain ⟨candidate, hcandidate⟩ :=
    buildCandidate_backed hbacked (by rw [hat.files]; exact hroot) previous
  obtain ⟨hsealed, hrec, hmarker⟩ := buildCandidate_sealed hcandidate
  refine .step (.point' _ t) (.step hopen ?_)
  refine .step (.point' _ t) (.step (.point' _ t) ?_)
  refine .step (.read' _ t) (.step (.ofExcept' t hcandidate) ?_)
  refine .step (.ofExcept' t hsizes) (.step (.point' _ t) ?_)
  obtain ⟨u, t', hrun⟩ := (publishGeneration_coherent options hsealed hmarker hat.basis hbase hrec).2
    (by rw [hat.generations]; exact hfree) hseq
  exact .step hrun (.of_runs (.pure' _ _))

theorem openStore_returns (lockFree : Bool) (hc : Coherent content ever s) (hcurrent : s.current.isSome)
    (hmax : ∀ n other, HasMarker s n other → other.sequence ≠ maxSequence) : Returns (openStore content lockFree) s := by
  have hb := hc.basis
  have hopen : ∀ (t : PackStore Digest) (n : Nat), (t.generations.get n).isSome = true →
      Returns (openGeneration n) t := by
    intro t n hn
    obtain ⟨generation, hget⟩ := isSome_iff_exists.mp hn
    exact ⟨⟨n, generation.packed⟩, t, by simp [openGeneration, Runs, Prog.bind_apply, hget]⟩
  have hsame : ∀ marker : PublishedGeneration Digest, s.head = some (headOf marker) →
      HasMarker s marker.generation marker → s.current = some marker.generation →
      Returns (openStore content lockFree) s := by
    intro marker hhead hdisk hcur
    have hrun : Runs (currentOrRecoveredGeneration content lockFree) s marker.generation s := by
      simp [currentOrRecoveredGeneration, Runs, Prog.bind_apply, hcur, hb.readHead hhead hdisk]
    obtain ⟨generation, hget, _⟩ := hdisk
    exact .step hrun (hopen s _ (by rw [hget]; rfl))
  rcases hc.phase with h | ⟨marker, h⟩ | ⟨marker, next, h⟩ | ⟨next, h⟩
  · rw [h.current] at hcurrent
    cases hcurrent
  · exact hsame marker h.head h.onDisk h.current
  · exact hsame marker h.head h.onDisk h.current
  · -- the head is one step ahead of `CURRENT`
    obtain ⟨current, hcur⟩ := isSome_iff_exists.mp hcurrent
    obtain ⟨generation, hget, hm⟩ := h.pending.onDisk
    have hprev : next.previousGeneration = some current := by rw [← h.pending.current, hcur]
    have hne : next.generation ≠ current := by
      rintro rfl
      exact (hb.markers _ _ _ hget hm).other hprev
    have hread := hb.readHead h.head h.pending.onDisk
    cases lockFree with
    | false =>
      have hrun : Runs (currentOrRecoveredGeneration content false) s current s := by
        simp [currentOrRecoveredGeneration, Runs, Prog.bind_apply, hcur, hread]
      exact .step hrun (hopen s _ (h.pending.held current hcur))
    | true =>
      have heq : currentOrRecoveredGeneration content true [] s = recoverCurrentGenerationLocked content [] s := by
        simp [currentOrRecoveredGeneration, Prog.bind_apply, hcur, hread, hne, hprev]
      have hat : At content ever s.files s.generations s := ⟨hb, rfl, rfl⟩
      have hroom : next.sequence ≠ maxSequence := hc.hasRoom hmax _ h.head
      obtain ⟨r, t, hrun⟩ := (recover_headed hroom).returns s ⟨hat, h⟩
      have hpost := (recover_headed hroom).spec [] s ⟨hat, h⟩
      rw [hrun.eq] at hpost
      obtain ⟨rfl, _, hs⟩ := hpost
      obtain ⟨g, hg, _⟩ := hs.onDisk
      exact .step (heq.trans hrun) (hopen t _ (by rw [hg]; rfl))

end

end CodexFold.Pack
