import CodexFold.Pack.PublicationRuns

/- The order of publications.

   A Build numbers its generation after the one it builds on: the marker carries the
   next sequence and the predecessor's name. What it builds on is read from the
   publication head, and completed first if a marker follows the head. As long as
   that is all there is to read, the markers form one chain (`Ordered`), and the
   sequences named by the head and by `CURRENT` only grow.

   Before the first head there is nothing to read: a first Build that stopped after
   its marker is not seen by the next one, which numbers its own generation 1 as well
   (`two_first_markers`). -/
namespace CodexFold.Pack
open Foundation Fold List Option

section
variable {Digest : Type} {content : Content Digest}
variable {s s' : PackStore Digest} {marker : PublishedGeneration Digest} {head : PublicationHead Digest}
variable {r : Option (PublishedGeneration Digest)}

def headSequence (s : PackStore Digest) : Nat := (s.head.map PublicationHead.sequence).getD 0

/-- The sequence of the generation named by `CURRENT`, 0 without one. -/
def currentSequence (s : PackStore Digest) : Nat :=
  (((s.current.bind s.generations.get).bind Generation.marker).map PublishedGeneration.sequence).getD 0

/-- The markers form one chain, the head names one of its two last ones, and `CURRENT`
    is not ahead of the head. -/
structure Ordered (s : PackStore Digest) : Prop where
  called : ∀ name marker, HasMarker s name marker → marker.generation = name ∧ 1 ≤ marker.sequence ∧
    (marker.sequence = 1 ↔ marker.previousGeneration = none)
  unique : ∀ name marker name' marker', HasMarker s name marker → HasMarker s name' marker' →
    marker.sequence = marker'.sequence → name = name'
  chain : ∀ name marker, HasMarker s name marker → 1 < marker.sequence →
    ∃ previous marker', marker.previousGeneration = some previous ∧ HasMarker s previous marker' ∧
      marker'.sequence + 1 = marker.sequence
  head : ∀ head, s.head = some head → ∃ marker, HasMarker s head.generation marker ∧
    marker.sequence = head.sequence
  newest : ∀ name marker, HasMarker s name marker → marker.sequence ≤ headSequence s + 1
  current : ∀ name, s.current = some name → ∃ marker, HasMarker s name marker ∧
    marker.sequence ≤ headSequence s
  first : s.head = none → s.current = none

structure Past (a b : Nat) (s : PackStore Digest) : Prop where
  ordered : Ordered s
  head : a ≤ headSequence s
  current : b ≤ currentSequence s

variable {name : Nat}

theorem HasMarker.inj {marker' : PublishedGeneration Digest} (h : HasMarker s name marker)
    (h' : HasMarker s name marker') : marker = marker' := by
  obtain ⟨generation, hget, hm⟩ := h
  obtain ⟨generation', hget', hm'⟩ := h'
  rw [hget] at hget'
  cases hget'
  exact some.inj (hm.symm.trans hm')

theorem currentSequence_eq (hc : s.current = some name) (h : HasMarker s name marker) :
    currentSequence s = marker.sequence := by
  obtain ⟨generation, hget, hm⟩ := h
  simp [currentSequence, hc, hget, hm]

theorem headSequence_eq (h : s.head = some head) : headSequence s = head.sequence := by
  simp [headSequence, h]

theorem Ordered.current_le (h : Ordered s) : currentSequence s ≤ headSequence s := by
  cases hc : s.current with
  | none => simp [currentSequence, hc]
  | some name =>
    obtain ⟨marker, hm, hle⟩ := h.current name hc
    rw [currentSequence_eq hc hm]
    exact hle

/-! ## What the code reads -/

theorem readPublishedMarker_ok {generation : Generation Digest} (h : readPublishedMarker name generation = .ok marker) :
    generation.marker = some marker ∧ marker.generation = name := by
  unfold readPublishedMarker at h
  cases hm : generation.marker with
  | none => simp [hm] at h
  | some found =>
    simp only [hm] at h
    obtain ⟨hcalled, h⟩ := of_guard h
    obtain ⟨-, h⟩ := of_guard h
    cases h
    exact ⟨rfl, by tauto⟩

theorem readPublicationHead_ok [DecidableEq Digest] (h : readPublicationHead s = .ok (head, marker)) :
    s.head = some head ∧ HasMarker s head.generation marker ∧ marker.generation = head.generation ∧
      marker.sequence = head.sequence := by
  unfold readPublicationHead at h
  cases hhead : s.head with
  | none => simp [hhead] at h
  | some found =>
    simp only [hhead] at h
    obtain ⟨-, h⟩ := of_guard h
    cases hget : s.generations.get found.generation with
    | none => simp [hget] at h
    | some generation =>
      simp only [hget] at h
      obtain ⟨-, h⟩ := of_guard h
      cases hread : readPublishedMarker found.generation generation with
      | error e => simp [hread] at h
      | ok onDisk =>
        simp only [hread] at h
        obtain ⟨hsame, h⟩ := of_guard h
        obtain ⟨-, h⟩ := of_guard h
        cases h
        have hsame' : marker.generation = head.generation ∧ marker.sequence = head.sequence := by tauto
        exact ⟨rfl, ⟨generation, hget, (readPublishedMarker_ok hread).1⟩, hsame'.1, hsame'.2⟩

/-- What the loop of `findPublishedSuccessor` has seen when it returns `r`: a marker that
    is newer than the head is the one it found, and it directly follows. -/
structure Searched (head : PublicationHead Digest) (found r : Option (PublishedGeneration Digest))
    (entries : List (Nat × Generation Digest)) : Prop where
  keep : found ≠ none → r = found
  newer : ∀ e ∈ entries, ∀ marker, e.2.marker = some marker → marker.sequence ≤ head.sequence ∨ r = some marker
  follows : ∀ next, r = some next → found = some next ∨
    next.sequence = head.sequence + 1 ∧ ∃ e ∈ entries, e.2.marker = some next ∧ next.generation = e.1

theorem Searched.pass {found : Option (PublishedGeneration Digest)}
    {entries : List (Nat × Generation Digest)} (h : Searched head found r entries) {e : Nat × Generation Digest}
    (he : ∀ marker, e.2.marker = some marker → marker.sequence ≤ head.sequence) :
    Searched head found r (e :: entries) := by
  refine ⟨h.keep, fun e' he' marker hm => ?_, fun next hn => ?_⟩
  · rcases mem_cons.mp he' with rfl | he'
    · exact .inl (he marker hm)
    · exact h.newer e' he' marker hm
  · refine (h.follows next hn).imp id fun hx => ⟨hx.1, ?_⟩
    obtain ⟨e', he', hm⟩ := hx.2
    exact ⟨e', mem_cons_of_mem _ he', hm⟩

theorem findSuccessor_ok : ∀ {entries : List (Nat × Generation Digest)} {found : Option (PublishedGeneration Digest)},
      findSuccessor head found entries = .ok r → Searched head found r entries
  | [], found, h => by
    cases h
    exact ⟨fun _ => rfl, nofun, fun _ => .inl⟩
  | (name, generation) :: rest, found, h => by
    unfold findSuccessor at h
    split at h
    · next hnone =>
      refine (findSuccessor_ok h).pass fun marker hm => ?_
      rw [show generation.marker = none from hnone] at hm
      cases hm
    · cases hread : readPublishedMarker name generation with
      | error e => simp [hread] at h
      | ok marker =>
        obtain ⟨hmarker, hcalled⟩ := readPublishedMarker_ok hread
        simp only [hread] at h
        split at h
        · next hle =>
          refine (findSuccessor_ok h).pass fun other hm => ?_
          rw [show generation.marker = some marker from hmarker] at hm
          cases hm
          exact hle
        · obtain ⟨hfollows, h⟩ := of_guard h
          obtain ⟨-, h⟩ := of_guard h
          obtain ⟨hfirst, h⟩ := of_guard h
          have hrest := findSuccessor_ok h
          have hr : r = some marker := hrest.keep (by simp)
          refine ⟨fun hf => absurd hf hfirst, fun e he other hm => ?_, fun next hn => ?_⟩
          · rcases mem_cons.mp he with rfl | he
            · exact .inr (by rw [hr, ← hm, hmarker])
            · exact hrest.newer e he other hm
          · rw [hr] at hn
            cases hn
            refine .inr ⟨by tauto, (name, generation), .head _, hmarker, hcalled⟩

theorem findPublishedSuccessor_ok (h : findPublishedSuccessor s.generations head = .ok r) :
    (∀ name marker, HasMarker s name marker → marker.sequence ≤ head.sequence ∨ r = some marker) ∧
    ∀ next, r = some next → next.sequence = head.sequence + 1 ∧ HasMarker s next.generation next := by
  unfold findPublishedSuccessor at h
  obtain ⟨-, h⟩ := of_guard h
  have hsearched := findSuccessor_ok h
  refine ⟨fun name marker hm => ?_, fun next hn => ?_⟩
  · obtain ⟨generation, hget, hm⟩ := hm
    exact hsearched.newer (name, generation) (s.generations.get_eq_some_iff.mp hget) marker hm
  · rcases hsearched.follows next hn with hc | ⟨hseq, e, he, hm, hcalled⟩
    · cases hc
    · exact ⟨hseq, e.2, by rw [hcalled]; exact s.generations.get_eq_some_iff.mpr he, hm⟩

/-! ## The steps of a publication -/

variable {a b : Nat}

theorem Ordered.same (h : Ordered s) (hhead : s'.head = s.head)
    (hcurrent : s'.current = s.current) (hmarkers : ∀ n m, HasMarker s' n m ↔ HasMarker s n m) : Ordered s' := by
  have hseq : headSequence s' = headSequence s := by rw [headSequence, headSequence, hhead]
  refine ⟨fun n m hm => h.called n m ((hmarkers n m).mp hm), fun n m n' m' hm hm' => ?_, fun n m hm hlt => ?_,
    fun head hh => ?_, fun n m hm => ?_, fun n hn => ?_, by rw [hhead, hcurrent]; exact h.first⟩
  · exact h.unique n m n' m' ((hmarkers n m).mp hm) ((hmarkers n' m').mp hm')
  · obtain ⟨p, m', hp, hm', hs⟩ := h.chain n m ((hmarkers n m).mp hm) hlt
    exact ⟨p, m', hp, (hmarkers p m').mpr hm', hs⟩
  · obtain ⟨m, hm, hs⟩ := h.head head (by rw [← hhead]; exact hh)
    exact ⟨m, (hmarkers _ m).mpr hm, hs⟩
  · rw [hseq]
    exact h.newest n m ((hmarkers n m).mp hm)
  · obtain ⟨m, hm, hle⟩ := h.current n (by rw [← hcurrent]; exact hn)
    exact ⟨m, (hmarkers n m).mpr hm, by rw [hseq]; exact hle⟩

theorem currentSequence_same (hcurrent : s'.current = s.current)
    (hmarkers : ∀ n m, HasMarker s' n m ↔ HasMarker s n m) (h : Ordered s) : currentSequence s' = currentSequence s := by
  cases hc : s.current with
  | none => simp [currentSequence, hcurrent, hc]
  | some name =>
    obtain ⟨m, hm, _⟩ := h.current name hc
    rw [currentSequence_eq hc hm, currentSequence_eq (hcurrent.trans hc) ((hmarkers name m).mpr hm)]

theorem Past.same (h : Past a b s) (hhead : s'.head = s.head)
    (hcurrent : s'.current = s.current) (hmarkers : ∀ n m, HasMarker s' n m ↔ HasMarker s n m) : Past a b s' := by
  refine ⟨h.ordered.same hhead hcurrent hmarkers, ?_, ?_⟩
  · rw [headSequence, hhead]
    exact h.head
  · rw [currentSequence_same hcurrent hmarkers h.ordered]
    exact h.current

structure Heads (generations : Files Nat (Generation Digest)) (generation sequence : Nat)
    (s : PackStore Digest) : Prop where
  generations : s.generations = generations
  head : ∃ head, s.head = some head ∧ head.generation = generation ∧ head.sequence = sequence

variable {generations : Files Nat (Generation Digest)} {generation sequence : Nat}

theorem publishCurrent_past :
    SpecOr (fun s => Past a b s ∧ Heads generations generation sequence s) (publishCurrent generation)
      (fun _ s => Past a b s ∧ Heads generations generation sequence s) (Past a b) := by
  have he : ∀ (s : PackStore Digest), Past a b s ∧ Heads generations generation sequence s →
      Past a b s := fun _ h => h.1
  refine .point' he fun _ => ?_
  refine .bind' (SpecOr.effect' he ?_) fun _ => SpecOr.final' he fun _ h => h
  rintro s ⟨h, hh⟩
  obtain ⟨head, hhead, rfl, rfl⟩ := hh.head
  obtain ⟨marker, hm, hseq⟩ := h.ordered.head head hhead
  -- the head is not behind what `CURRENT` named before
  have hnow : currentSequence { s with current := some head.generation } = headSequence s := by
    rw [currentSequence_eq (s := { s with current := some head.generation }) rfl hm, hseq, headSequence_eq hhead]
  refine ⟨⟨⟨h.ordered.called, h.ordered.unique, h.ordered.chain, h.ordered.head, h.ordered.newest, ?_, ?_⟩,
    h.head, ?_⟩, ⟨hh.generations, head, hhead, rfl, rfl⟩⟩
  · rintro name ⟨⟩
    exact ⟨marker, hm, by rw [hseq, ← headSequence_eq hhead]; exact Nat.le_refl _⟩
  · intro hnone
    rw [show s.head = none from hnone] at hhead
    cases hhead
  · rw [hnow]
    exact Nat.le_trans h.current h.ordered.current_le

theorem publishPublicationHead_past :
    SpecOr (fun s => (Past a b s ∧ s.generations = generations) ∧ HasMarker s marker.generation marker ∧
        headSequence s ≤ marker.sequence) (publishPublicationHead marker)
      (fun _ s => Past a b s ∧ Heads generations marker.generation marker.sequence s) (Past a b) := by
  refine SpecOr.after (fun _ h => h.1.1) (Keeps.read' _) fun found => ?_
  cases found with
  | none => exact .throw' _ fun _ h => h.1.1
  | some onDisk =>
    refine .point' (fun _ h => h.1.1) fun _ => ?_
    refine Spec.bind' (SpecOr.effect' (fun _ h => h.1.1) ?_) fun _ =>
        SpecOr.final' (fun _ h => h.1) (fun _ h => h)
    rintro s ⟨⟨h, hgen⟩, hm, hle⟩
    have ho := h.ordered
    refine ⟨⟨⟨ho.called, ho.unique, ho.chain, ?_, fun n m hm' => ?_, fun n hn => ?_, nofun⟩,
      Nat.le_trans h.head hle, h.current⟩, ⟨hgen, _, rfl, rfl, rfl⟩⟩
    · rintro head ⟨⟩
      exact ⟨marker, hm, rfl⟩
    · exact Nat.le_trans (ho.newest n m hm') (Nat.add_le_add_right hle 1)
    · obtain ⟨m, hm', hle'⟩ := ho.current n hn
      exact ⟨m, hm', Nat.le_trans hle' hle⟩

variable [DecidableEq Digest]

theorem promote_past :
    SpecOr (fun s => (Past a b s ∧ s.generations = generations) ∧ HasMarker s marker.generation marker ∧
        headSequence s ≤ marker.sequence) (promotePublishedGenerationLocked content marker true)
      (fun r s => r = marker.generation ∧ Past a b s ∧ Heads generations marker.generation marker.sequence s) (Past a b) := by
  refine .after (fun _ h => h.1.1) (.read' _) fun _ => ?_
  refine .after (fun _ h => h.1.1) (.ofExcept' _) fun _ => ?_
  refine .bind' publishPublicationHead_past fun _ => ?_
  exact .bind' publishCurrent_past fun _ => .pure' _ fun _ h => ⟨rfl, h⟩

theorem promoteCurrent_past : SpecOr (fun s => Past a b s ∧ Heads generations marker.generation sequence s)
      (promotePublishedGenerationLocked content marker false)
      (fun r s => r = marker.generation ∧ Past a b s ∧ Heads generations marker.generation sequence s) (Past a b) := by
  refine .after (fun _ h => h.1) (.read' _) fun _ => ?_
  refine .after (fun _ h => h.1) (.ofExcept' _) fun _ => ?_
  exact .bind' publishCurrent_past fun _ => .pure' _ fun _ h => ⟨rfl, h⟩

def Recovered (a b : Nat) (generations : Files Nat (Generation Digest)) (r : Nat) (s : PackStore Digest) : Prop :=
  ∃ sequence, (Past a b s ∧ Heads generations r sequence s) ∧ ∀ n m, HasMarker s n m → m.sequence ≤ sequence

theorem promoteSuccessor_recovers (h : Past a b s) (hhead : s.head = some head) {next : PublishedGeneration Digest}
    (hfind : findPublishedSuccessor s.generations head = .ok (some next)) :
    SpecOr (· = s) (promotePublishedGenerationLocked content next true)
      (Recovered a b s.generations) (Past a b) := by
  obtain ⟨hall, hnext⟩ := findPublishedSuccessor_ok hfind
  obtain ⟨hseq, hdisk⟩ := hnext next rfl
  refine (promote_past.pre ?_).weaken fun r t ht => ⟨next.sequence, ⟨ht.2.1, by rw [ht.1]; exact ht.2.2⟩, ?_⟩
  · rintro _ rfl
    exact ⟨⟨h, rfl⟩, hdisk, by rw [headSequence_eq hhead, hseq]; exact Nat.le_succ _⟩
  · intro n m hm
    rw [HasMarker, ht.2.2.generations] at hm
    rcases hall n m hm with hle | heq
    · omega
    · cases heq
      exact Nat.le_refl _

theorem recover_past : SpecOr (fun s => Past a b s ∧ s.generations = generations) (recoverCurrentGenerationLocked content)
      (Recovered a b generations) (Past a b) := by
  refine .at' fun s ⟨h, hgenerations⟩ => ?_
  subst hgenerations
  have he : ∀ t, t = s → Past a b t := held h
  refine Spec.readAt (SpecOr.checked he fun found hread => ?_)
  obtain ⟨head, marker⟩ := found
  obtain ⟨hhead, hm, hcalled, hseq⟩ := readPublicationHead_ok hread
  refine Spec.readAt (SpecOr.checked he fun successor hfind => ?_)
  cases successor with
  | some next => exact promoteSuccessor_recovers h hhead hfind
  | none =>
    obtain ⟨hall, _⟩ := findPublishedSuccessor_ok hfind
    refine (promoteCurrent_past.pre ?_).weaken fun r t ht => ⟨head.sequence, ⟨ht.2.1, by rw [ht.1]; exact ht.2.2⟩, ?_⟩
    · rintro _ rfl
      exact ⟨h, rfl, head, hhead, hcalled.symm, rfl⟩
    · intro n m hnm
      rw [HasMarker, ht.2.2.generations] at hnm
      exact (hall n m hnm).resolve_right (by simp)

/-! ## Build -/

/-- What a Build numbers its generation after: nothing at all, or the head, which no
    marker is ahead of. -/
def NumberedAfter (previousGeneration : Option Nat) (previousSequence : Nat) (s : PackStore Digest) : Prop :=
  (previousGeneration = none ∧ previousSequence = 0 ∧ s.head = none ∧ ∀ n m, ¬HasMarker s n m) ∨
    ∃ head, s.head = some head ∧ previousGeneration = some head.generation ∧ previousSequence = head.sequence ∧
      ∀ n m, HasMarker s n m → m.sequence ≤ head.sequence

/-- Where neither head nor `CURRENT` exists, no directory has a marker. -/
def NothingMarked (s : PackStore Digest) : Prop :=
  s.head = none → s.current = none → ∀ name marker, ¬HasMarker s name marker

theorem recoveredBase_past (message : String) (r : Nat) :
    SpecOr (Recovered a b generations r) (recoveredBase message r) (fun r s => Past a b s ∧ NumberedAfter r.1 r.2 s) (Past a b) := by
  refine .at' fun s ⟨last, ⟨h, hh⟩, hall⟩ => ?_
  have he : ∀ t, t = s → Past a b t := held h
  obtain ⟨head, hhead, rfl, rfl⟩ := hh.head
  refine Spec.readAt (SpecOr.checked he fun found hread => ?_)
  obtain ⟨found, marker⟩ := found
  obtain ⟨hhead', _⟩ := readPublicationHead_ok hread
  obtain rfl : head = found := some.inj (hhead.symm.trans hhead')
  refine SpecOr.after he (Keeps.ensure' _ _) fun _ => Spec.pure' _ ?_
  rintro _ rfl
  exact ⟨h, .inr ⟨head, hhead, rfl, rfl, hall⟩⟩

theorem currentPublication_past (random : Nat) :
    SpecOr (fun s => Past a b s ∧ NothingMarked s) (currentPublicationForBuild content random)
      (fun r s => Past a b s ∧ NumberedAfter r.1 r.2 s) (Past a b) := by
  refine .at' fun s ⟨h, hclean⟩ => ?_
  have he : ∀ t, t = s → Past a b t := held h
  refine .readAt (.readAt (.ite' (fun hnone => ?_) (fun _ => ?_)))
  · have hhead : s.head = none := by simpa using hnone
    have hcurrent := h.ordered.first hhead
    rw [hcurrent]
    refine .pure' _ ?_
    rintro _ rfl
    exact ⟨h, .inl ⟨rfl, rfl, hhead, hclean hhead hcurrent⟩⟩
  · refine Spec.readAt (SpecOr.checked he fun found hread => ?_)
    obtain ⟨head, marker⟩ := found
    obtain ⟨hhead, hm, hcalled, hseq⟩ := readPublicationHead_ok hread
    refine .readAt (.ite' (fun hcurrent => ?_) (fun _ => .ite' (fun _ => ?_) (fun _ => ?_)))
    · refine SpecOr.checked he fun successor hfind => ?_
      obtain ⟨hall, hnext⟩ := findPublishedSuccessor_ok hfind
      cases successor with
      | none =>
        refine .pure' _ ?_
        rintro _ rfl
        exact ⟨h, .inr ⟨head, hhead, rfl, rfl, fun n m hnm => (hall n m hnm).resolve_right (by simp)⟩⟩
      | some next =>
        exact .bind' (promoteSuccessor_recovers h hhead hfind) fun r => recoveredBase_past _ r
    · exact .throw' _ he
    · have hstart : ∀ t, t = s → Past a b t ∧ t.generations = s.generations := by
        rintro _ rfl
        exact ⟨h, rfl⟩
      exact .bind' (recover_past.pre hstart) (recoveredBase_past _)

variable {name : Nat} {previousGeneration : Option Nat} {previousSequence : Nat}

structure Renamed (a b name : Nat) (previousGeneration : Option Nat) (previousSequence : Nat)
    (s : PackStore Digest) : Prop where
  past : Past a b s
  after : NumberedAfter previousGeneration previousSequence s
  directory : ∃ generation, s.generations.get name = some generation ∧ generation.marker = none

omit [DecidableEq Digest] in
theorem NumberedAfter.same (h : NumberedAfter previousGeneration previousSequence s)
    (hhead : s'.head = s.head) (hmarkers : ∀ n m, HasMarker s' n m ↔ HasMarker s n m) :
    NumberedAfter previousGeneration previousSequence s' := by
  rcases h with ⟨hp, hq, hnone, hclean⟩ | ⟨head, hsome, hp, hq, hle⟩
  · exact .inl ⟨hp, hq, by rw [hhead]; exact hnone, fun n m hm => hclean n m ((hmarkers n m).mp hm)⟩
  · exact .inr ⟨head, by rw [hhead]; exact hsome, hp, hq, fun n m hm => hle n m ((hmarkers n m).mp hm)⟩

omit [DecidableEq Digest] in
theorem Renamed.mark (h : Renamed a b name previousGeneration previousSequence s)
    (next : PublishedGeneration Digest) (hname : next.generation = name)
    (hseq : next.sequence = previousSequence + 1) (hprev : next.previousGeneration = previousGeneration) :
    let s' := s.updateGeneration name (fun g => { g with marker := some next })
    Past a b s' ∧ HasMarker s' name next ∧ headSequence s' ≤ next.sequence := by
  intro s'
  obtain ⟨generation, hget, hnone⟩ := h.directory
  obtain ⟨hs', hmarkers⟩ : s' = _ ∧ _ := updateGeneration_mark hget hnone next
  have hheadSeq : headSequence s' = headSequence s := by rw [hs']; rfl
  have ho := h.past.ordered
  -- the predecessor: nothing, or the head's generation, and no marker beyond it
  have hbase : headSequence s = previousSequence ∧ (∀ n m, HasMarker s n m → m.sequence ≤ previousSequence) ∧
      ((previousGeneration = none ∧ previousSequence = 0) ∨
        ∃ p m, previousGeneration = some p ∧ HasMarker s p m ∧ m.sequence = previousSequence ∧ 1 ≤ previousSequence) := by
    rcases h.after with ⟨hp, hq, hhead, hclean⟩ | ⟨head, hhead, hp, hq, hle⟩
    · refine ⟨by rw [headSequence, hhead, hq]; rfl, fun n m hm => absurd hm (hclean n m), .inl ⟨hp, hq⟩⟩
    · obtain ⟨m, hm, hms⟩ := ho.head head hhead
      refine ⟨by rw [headSequence_eq hhead, hq], fun n m hm => by rw [hq]; exact hle n m hm, .inr ?_⟩
      exact ⟨head.generation, m, hp, hm, by rw [hms, hq], by rw [hq, ← hms]; exact (ho.called _ m hm).2.1⟩
  obtain ⟨hheadIs, hle, hprevious⟩ := hbase
  have hcurrentSeq : currentSequence s' = currentSequence s := by
    cases hc : s.current with
    | none => rw [hs']; simp [currentSequence, hc]
    | some current =>
      obtain ⟨m, hm, _⟩ := ho.current current hc
      have hc' : s'.current = some current := by rw [hs']; exact hc
      rw [currentSequence_eq hc hm, currentSequence_eq hc' ((hmarkers current m).mpr (.inr hm))]
  refine ⟨⟨⟨fun n m hm => ?_, fun n m n' m' hm hm' heq => ?_, fun n m hm hlt => ?_, fun head hh => ?_,
    fun n m hm => ?_, fun n hn => ?_, fun hn => ?_⟩, by rw [hheadSeq]; exact h.past.head,
    by rw [hcurrentSeq]; exact h.past.current⟩, (hmarkers _ _).mpr (.inl ⟨rfl, rfl⟩), by omega⟩
  · rcases (hmarkers n m).mp hm with ⟨rfl, rfl⟩ | hm
    · refine ⟨hname, by omega, ?_⟩
      rw [hprev, hseq]
      rcases hprevious with ⟨hp, hq⟩ | ⟨p, _, hp, _, _, hpos⟩
      · simp [hp, hq]
      · simp only [hp, reduceCtorEq, iff_false]
        omega
    · exact ho.called n m hm
  · rcases (hmarkers n m).mp hm with ⟨rfl, rfl⟩ | hold
    · rcases (hmarkers n' m').mp hm' with ⟨rfl, _⟩ | hold'
      · rfl
      · have := hle n' m' hold'
        omega
    · rcases (hmarkers n' m').mp hm' with ⟨rfl, rfl⟩ | hold'
      · have := hle n m hold
        omega
      · exact ho.unique n m n' m' hold hold' heq
  · rcases (hmarkers n m).mp hm with ⟨rfl, rfl⟩ | hm
    · rcases hprevious with ⟨_, hq⟩ | ⟨p, m', hp, hm', hms, _⟩
      · omega
      · exact ⟨p, m', hprev.trans hp, (hmarkers p m').mpr (.inr hm'), by omega⟩
    · obtain ⟨p, m', hp, hm', hms⟩ := ho.chain n m hm hlt
      exact ⟨p, m', hp, (hmarkers p m').mpr (.inr hm'), hms⟩
  · obtain ⟨m, hm, hms⟩ := ho.head head (by rw [hs'] at hh; exact hh)
    exact ⟨m, (hmarkers _ m).mpr (.inr hm), hms⟩
  · rw [hheadSeq, hheadIs]
    rcases (hmarkers n m).mp hm with ⟨rfl, rfl⟩ | hm
    · omega
    · exact Nat.le_succ_of_le (hle n m hm)
  · obtain ⟨m, hm, hms⟩ := ho.current n (by rw [hs'] at hn; exact hn)
    exact ⟨m, (hmarkers n m).mpr (.inr hm), by rw [hheadSeq]; exact hms⟩
  · rw [hs'] at hn ⊢
    exact ho.first hn

omit [DecidableEq Digest] in
theorem loadOrCreate_renamed (random : Nat) :
    SpecOr (fun s : PackStore Digest => Renamed a b name previousGeneration previousSequence s)
      (loadOrCreatePackStoreIdentity random)
      (fun _ => Renamed a b name previousGeneration previousSequence) (Past a b) := by
  refine .after (fun _ h => h.past) (.read' _) fun found => ?_
  cases found with
  | some identity => exact .pure' _ fun _ h => h
  | none =>
    refine .after (fun _ h => h.past) ?_ fun _ => .pure' _ fun _ h => h
    refine .bind' (.point' _) fun _ => .bind' (.effect' _ _ fun s h => ?_) fun _ => .point' _
    exact ⟨h.past.same rfl rfl fun _ _ => Iff.rfl, h.after.same rfl fun _ _ => Iff.rfl, h.directory⟩

omit [DecidableEq Digest] in
theorem markGenerationPublished_past (random : Nat) :
    SpecOr (fun s : PackStore Digest => Renamed a b name previousGeneration previousSequence s)
      (markGenerationPublished random name (previousSequence + 1) previousGeneration)
      (fun next s => (Past a b s ∧ HasMarker s next.generation next ∧ headSequence s ≤ next.sequence) ∧
        next.generation = name) (Past a b) := by
  refine SpecOr.after (fun _ h => h.past) (Keeps.ensure' _ _) fun _ => ?_
  refine Spec.bind' (loadOrCreate_renamed random) fun identity => ?_
  refine SpecOr.after (fun _ h => h.past) (Keeps.read' _) fun found => ?_
  cases found with
  | none => exact Spec.throw' _ fun _ h => h.past
  | some recovery =>
    refine Spec.bind' ?_ fun _ => Spec.pure' _ fun _ h => ⟨h, rfl⟩
    refine SpecOr.point' (fun _ h => h.past) fun _ => ?_
    refine Spec.bind' (SpecOr.effect' (fun _ h => h.past) (fun s h => ?_)) fun _ =>
      SpecOr.final' (fun _ h => h.1) fun _ h => h
    exact h.mark (newMarker identity name previousGeneration previousSequence recovery) rfl rfl rfl

omit [DecidableEq Digest] in
theorem publishGeneration_past (options : BuildOptions) {candidate : Generation Digest}
    (hmarker : candidate.marker = none) :
    LeadsTo (fun s => Past a b s ∧ NumberedAfter previousGeneration previousSequence s)
      (publishGeneration options previousGeneration previousSequence candidate) (Past a b) := by
  unfold publishGeneration
  refine Spec.at' fun s ⟨h, hnumbered⟩ => Spec.readAt (Spec.ensured (held h) fun hfree => ?_)
  refine Spec.bind' (M := fun _ => Renamed a b options.suffix previousGeneration previousSequence)
    (SpecOr.effect' (held h) fun t ht => ?_) fun _ => ?_
  · subst ht
    have hsame := hasMarker_rename (by simpa using hfree) hmarker
    exact ⟨h.same rfl rfl hsame, hnumbered.same rfl hsame, candidate, by simp, hmarker⟩
  refine SpecOr.point' (fun _ h => h.past) fun _ => ?_
  refine SpecOr.point' (fun _ h => h.past) fun _ => ?_
  refine SpecOr.after (fun _ h => h.past) (Keeps.ensure' _ _) fun _ => ?_
  refine Spec.bind' (markGenerationPublished_past _) fun next => ?_
  rintro fs s ⟨⟨h, hm, hle⟩, hname⟩
  refine Spec.bind' publishPublicationHead_past (fun _ => ?_) fs s ⟨⟨h, rfl⟩, hm, hle⟩
  refine SpecOr.point' (fun _ h => h.1) fun _ => ?_
  rw [← hname]
  exact publishCurrent_past.weaken (fun _ _ h => h.1)

theorem build_past (options : BuildOptions) :
    LeadsTo (fun s => Past a b s ∧ NothingMarked s) (build content options) (Past a b) := by
  refine SpecOr.point' (fun _ h => h.1) fun _ => ?_
  refine .bind' (currentPublication_past _) fun base => ?_
  have he : ∀ (s : PackStore Digest), Past a b s ∧ NumberedAfter base.1 base.2 s → Past a b s :=
    fun _ h => h.1
  refine SpecOr.point' he fun _ => SpecOr.after he (openPrevious_keeps _) fun previous => ?_
  refine .point' he fun _ => .point' he fun _ => ?_
  refine .at' fun s h => ?_
  refine .readAt (.checked (fun _ => held h.1) fun candidate hcandidate => ?_)
  refine SpecOr.after (held h.1) (Keeps.ofExcept' _) fun _ => SpecOr.point' (held h.1) fun _ => ?_
  obtain ⟨_, _, hmarker⟩ := buildCandidate_sealed hcandidate
  exact .bind' ((publishGeneration_past options hmarker).pre (held h)) fun _ => .pure' _ fun _ h => h

/-! ## Runs -/

theorem recover_keepsPast : Keeps (Past a b) (recoverCurrentGenerationLocked content) := by
  intro fs s h
  refine (recover_past.weaken (fun r t ht => ?_)) fs s ⟨h, rfl⟩
  obtain ⟨_, ht, _⟩ := ht
  exact ht.1

theorem openStore_past (lockFree : Bool) : Keeps (Past a b) (openStore content lockFree) :=
  .bind' (currentOrRecovered_keeps recover_keepsPast lockFree) fun generation =>
    (openGeneration_spec generation).weaken fun _ _ h => h.1

inductive OrderStep (content : Content Digest) (starts : PackStore Digest → Prop) (s : PackStore Digest) :
    PackStore Digest → Prop
  | files (files : Store Digest) : OrderStep content starts s { s with files }
  | build (options : BuildOptions) (fs : List Fault) : starts s →
      OrderStep content starts s (build content options fs s).2.1
  | openStore (lockFree : Bool) (fs : List Fault) :
      OrderStep content starts s (openStore content lockFree fs s).2.1
  | recover (fs : List Fault) : OrderStep content starts s (recoverCurrentGenerationLocked content fs s).2.1

inductive OrderRun (content : Content Digest) (starts : PackStore Digest → Prop) (s₀ : PackStore Digest) :
    PackStore Digest → Prop
  | refl : OrderRun content starts s₀ s₀
  | step {s s' : PackStore Digest} : OrderRun content starts s₀ s → OrderStep content starts s s' →
      OrderRun content starts s₀ s'

theorem OrderStep.past (hs : Past a b s) (h : OrderStep content NothingMarked s s') : Past a b s' := by
  cases h with
  | files files => exact hs.same rfl rfl fun _ _ => Iff.rfl
  | build options fs hstart => exact (build_past options).state fs ⟨hs, hstart⟩
  | openStore lockFree fs => exact (openStore_past lockFree).state fs hs
  | recover fs => exact recover_keepsPast.state fs hs

theorem OrderRun.past {s₀ : PackStore Digest} (hs : Past a b s₀) (h : OrderRun content NothingMarked s₀ s) :
    Past a b s := by
  induction h with
  | refl => exact hs
  | step _ hstep ih => exact hstep.past ih

omit [DecidableEq Digest] in
theorem emptyStore_ordered : Ordered (emptyStore : PackStore Digest) := by
  have hno : ∀ n m, ¬HasMarker (emptyStore : PackStore Digest) n m := by
    rintro n m ⟨g, hg, _⟩
    simp [emptyStore] at hg
  exact ⟨fun n m h => absurd h (hno n m), fun n m _ _ h => absurd h (hno n m), fun n m h => absurd h (hno n m),
    by simp [emptyStore], fun n m h => absurd h (hno n m), by simp [emptyStore], fun _ => rfl⟩

/-- Publication order is monotone. In every run from the empty store in which no Build
    starts beside the marker of an unfinished first publication: no two markers have the
    same sequence or the same predecessor, a marker beyond the first names the
    generation marked with the preceding sequence, and the sequences named by the head
    and by `CURRENT` never decrease. -/
theorem publication_order_monotone (content : Content Digest) (s s' : PackStore Digest)
    (h : OrderRun content NothingMarked emptyStore s) (h' : OrderRun content NothingMarked s s') :
    (∀ name marker name' marker', HasMarker s name marker → HasMarker s name' marker' →
      marker.sequence = marker'.sequence ∨ marker.previousGeneration = marker'.previousGeneration → name = name') ∧
    (∀ name marker, HasMarker s name marker → 1 < marker.sequence →
      ∃ previous marker', marker.previousGeneration = some previous ∧ HasMarker s previous marker' ∧
        marker'.sequence + 1 = marker.sequence) ∧
    headSequence s ≤ headSequence s' ∧ currentSequence s ≤ currentSequence s' := by
  have ho : Ordered s := (h.past ⟨emptyStore_ordered, Nat.zero_le _, Nat.zero_le _⟩).ordered
  have hlater := h'.past ⟨ho, Nat.le_refl _, Nat.le_refl _⟩
  refine ⟨fun n m n' m' hm hm' heq => ?_, ho.chain, hlater.head, hlater.current⟩
  rcases heq with heq | heq
  · exact ho.unique n m n' m' hm hm' heq
  -- the predecessor decides the sequence
  refine ho.unique n m n' m' hm hm' ?_
  have hfirst := (ho.called n m hm).2.2
  have hfirst' := (ho.called n' m' hm').2.2
  have hpos := (ho.called n m hm).2.1
  have hpos' := (ho.called n' m' hm').2.1
  by_cases hone : m.sequence = 1
  · rw [hone, hfirst'.mpr (heq ▸ hfirst.mp hone)]
  · have hone' : m'.sequence ≠ 1 := fun hc => hone (hfirst.mpr (heq.trans (hfirst'.mp hc)))
    obtain ⟨p, q, hp, hq, hqs⟩ := ho.chain n m hm (by omega)
    obtain ⟨p', q', hp', hq', hqs'⟩ := ho.chain n' m' hm' (by omega)
    obtain rfl : p = p' := some.inj (hp.symm.trans (heq.trans hp'))
    rw [← hqs, ← hqs', hq.inj hq']

end

def firstMarked : PackStore Bytes := buildUntil 1 13 (foldOf "a" [65] emptyStore)

theorem publication_order_monotone_headMoved :
    headMoved.generations.entries.length = 2 ∧ headSequence firstBuilt = 1 ∧ headSequence headMoved = 2 ∧
      currentSequence firstBuilt ≤ currentSequence headMoved := by
  have hfold : OrderRun .plain NothingMarked emptyStore (foldOf "a" [65] emptyStore) := by
    exact .step .refl (.files _)
  have hfirst : OrderRun .plain NothingMarked emptyStore firstBuilt := by
    refine .step hfold (.build ⟨1, 7, .small⟩ _ fun _ _ n m hm => ?_)
    obtain ⟨generation, hget, _⟩ := hm
    cases hget
  have hmoved : OrderRun .plain NothingMarked firstBuilt headMoved :=
    .step .refl (.build ⟨2, 7, .small⟩ _ fun hnone => absurd hnone (by decide +kernel))
  exact ⟨by decide +kernel, by decide +kernel, by decide +kernel,
    (publication_order_monotone .plain firstBuilt headMoved hfirst hmoved).2.2.2⟩

def markedTwice : PackStore Bytes := buildUntil 2 100 firstMarked

/-- The next Build does not see the marker of the first one, and numbers its own
    generation 1 again. -/
theorem two_first_markers : ∃ s, OrderRun .plain (fun _ => True) emptyStore s ∧
      ∃ name marker name' marker', HasMarker s name marker ∧ HasMarker s name' marker' ∧
        marker.sequence = marker'.sequence ∧ marker.previousGeneration = marker'.previousGeneration ∧ name ≠ name' := by
  have hrun : OrderRun .plain (fun _ => True) emptyStore markedTwice := by
    refine .step (.step ?_ (.build ⟨1, 7, .small⟩ _ trivial)) (.build ⟨2, 7, .small⟩ _ trivial)
    exact .step .refl (.files _)
  have hnumbered : ∀ name ∈ [1, 2], ((markedTwice.generations.get name).bind Generation.marker).map
      (fun marker => (marker.sequence, marker.previousGeneration)) = some (1, none) := by decide +kernel
  have hmarker : ∀ name ∈ [1, 2], ∃ marker, HasMarker markedTwice name marker ∧ marker.sequence = 1 ∧
      marker.previousGeneration = none := by
    intro name hname
    obtain ⟨marker, hfound, heq⟩ := map_eq_some_iff.mp (hnumbered name hname)
    obtain ⟨generation, hget, hm⟩ := bind_eq_some_iff.mp hfound
    exact ⟨marker, ⟨generation, hget, hm⟩, congrArg Prod.fst heq, congrArg Prod.snd heq⟩
  obtain ⟨marker, hm, hseq, hprev⟩ := hmarker 1 (by simp)
  obtain ⟨marker', hm', hseq', hprev'⟩ := hmarker 2 (by simp)
  exact ⟨markedTwice, hrun, 1, marker, 2, marker', hm, hm', by rw [hseq, hseq'], by rw [hprev, hprev'], by decide⟩

end CodexFold.Pack
