import CodexFold.Vfs.Frames
import CodexFold.Vfs.Operations

/- The chain of checkpoints over whole runs (`state_checkpoint.go`).

   The catalog names the newest checkpoint, and every checkpoint names the one
   before it. A publication adds a checkpoint behind the catalog's; a refresh puts a
   new checkpoint in the place of the catalog's and removes that one, or adds one
   behind it while a checkpoint is pinned; a reconciliation moves away whatever is
   outside the lineage. Wherever one of them stops, the lineage of the catalog is
   complete, and the catalog only moves forward. -/
namespace CodexFold.Vfs
open Foundation List Option Function

variable {d : Directory}

def Directory.Chained (d : Directory) : Prop :=
  ∀ h, d.catalog = some h → h ∈ d.checkpoints ∧ linked d.checkpoints h.checkpoint h.previous = true

structure Later (pin : Option Lineage) (h l : Lineage) : Prop where
  sequence : l = h ∨ h.checkpoint.sequence < l.checkpoint.sequence
  generation : h.checkpoint.state.generation ≤ l.checkpoint.state.generation
  lineage : pin.isSome = true → h.chain <:+ l.chain

theorem Later.refl (pin : Option Lineage) (h : Lineage) : Later pin h h :=
  ⟨.inl rfl, le_refl _, fun _ => suffix_rfl⟩

theorem Later.trans {pin : Option Lineage} {h k l : Lineage} (hk : Later pin h k) (kl : Later pin k l) :
    Later pin h l where
  sequence := by
    rcases hk.sequence with rfl | hlt
    · exact kl.sequence
    · rcases kl.sequence with rfl | hlt'
      · exact .inr hlt
      · exact .inr (lt_trans hlt hlt')
  generation := le_trans hk.generation kl.generation
  lineage hp := (hk.lineage hp).trans (kl.lineage hp)

structure Stands (start pin : Option Lineage) (d : Directory) : Prop where
  chained : d.Chained
  pinned : d.pin = pin
  later : ∀ h, start = some h → ∃ l, d.catalog = some l ∧ Later pin h l

section
variable {start pin : Option Lineage}
variable {state : SessionState}
variable {temporary : Option DataFile}

/-! ## Single effects -/

section

variable {d : Directory} (h : Stands start pin d)
include h

section

variable {d' : Directory} (hcat : d'.catalog = d.catalog)
include hcat

theorem Stands.checkpoints (hpin : d'.pin = d.pin)
    (hmem : ∀ k l, d.catalog = some k → l ∈ k.ancestry → l ∈ d.checkpoints → l ∈ d'.checkpoints) :
    Stands start pin d' where
  chained := by
    intro k hk
    rw [hcat] at hk
    obtain ⟨hin, hlinked⟩ := h.chained k hk
    refine ⟨hmem k k hk k.self_mem_ancestry hin, linked_of_mem (fun l hl hl' => ?_) hlinked⟩
    exact hmem k l hk (Lineage.mem_ancestry_iff.mpr (.inr hl)) hl'
  pinned := by rw [hpin, h.pinned]
  later k hk := by
    rw [hcat]
    exact h.later k hk

theorem Stands.aside (hpin : d'.pin = d.pin) (hsame : d'.checkpoints = d.checkpoints) : Stands start pin d' :=
  h.checkpoints hcat hpin fun _ _ _ _ hl => by rwa [hsame]

end

theorem Stands.dropCheckpoint {head l : Lineage} (hcat : d.catalog = some head) (hl : l ∉ head.ancestry) :
    Stands start pin (d.dropCheckpoint l) := by
  refine h.checkpoints rfl rfl fun k j hk hj hin => ?_
  rw [hcat] at hk
  cases hk
  have hne : j ≠ l := fun he => hl (he ▸ hj)
  simp [Directory.dropCheckpoint, hin, hne]

theorem Stands.setCatalog {l : Lineage} (hin : l ∈ d.checkpoints)
    (hlinked : linked d.checkpoints l.checkpoint l.previous)
    (hlater : ∀ head, d.catalog = some head → Later pin head l) : Stands start pin { d with catalog := some l } where
  chained k hk := by
    cases some.inj hk
    exact ⟨hin, hlinked⟩
  pinned := h.pinned
  later k hk := by
    obtain ⟨head, hcat, hkh⟩ := h.later k hk
    exact ⟨l, rfl, hkh.trans (hlater head hcat)⟩

end

/-! ## Programs -/

/-- The checkpoint the catalog is about to move to. -/
structure Ready (start pin : Option Lineage) (current : Option Lineage) (c : Checkpoint) (previous : List Checkpoint)
    (d : Directory) : Prop where
  stands : Stands start pin d
  catalog : d.catalog = current
  complete : linked d.checkpoints c previous = true
  later : ∀ head, current = some head → Later pin head ⟨c, previous⟩

theorem writeCheckpointAndCatalog_stands (current : Option Lineage) {c : Checkpoint} {previous : List Checkpoint}
    {next : Prog Directory String Unit}
    (hnext : LeadsTo (fun d => Stands start pin d ∧ d.catalog = some ⟨c, previous⟩) next (Stands start pin)) :
    LeadsTo (Ready start pin current c previous)
      (do writeImmutableStateCheckpoint ⟨c, previous⟩; writeStateCatalog ⟨c, previous⟩; next) (Stands start pin) := by
  have hready : SpecOr (Ready start pin current c previous) (writeImmutableStateCheckpoint ⟨c, previous⟩)
      (fun _ d => Ready start pin current c previous d ∧ ⟨c, previous⟩ ∈ d.checkpoints) (Stands start pin) := by
    refine Spec.post (writeImmutableStateCheckpoint_links ?_ ?_ ?_)
      (fun _ _ h => h) (fun _ _ h => h.stands) fun _ h => h.stands
    · exact fun d h => ⟨h.stands.aside rfl rfl rfl, h.catalog, h.complete, h.later⟩
    · exact fun d h => ⟨h.stands.aside rfl rfl rfl, h.catalog, h.complete, h.later⟩
    · intro d h
      refine ⟨h.stands.checkpoints rfl rfl fun _ _ _ _ hl => mem_cons_of_mem _ hl, h.catalog, ?_, h.later⟩
      exact linked_of_mem (fun _ _ hl => mem_cons_of_mem _ hl) h.complete
  refine Spec.bind' hready fun _ => Spec.bind' ?_ fun _ => hnext
  refine SpecOr.point' (fun _ h => h.1.stands) fun _ => ?_
  refine Spec.bind' (SpecOr.effect' (fun _ h => h.1.stands) (fun d h => ⟨?_, rfl⟩))
    (fun _ => SpecOr.final' (fun _ h => h.1) (fun _ h => h))
  refine h.1.stands.setCatalog h.2 h.1.complete fun head hhead => h.1.later head ?_
  rw [← h.1.catalog]
  exact hhead

theorem reconcile_stands : Keeps (Stands start pin) reconcileStateCheckpointHistory := by
  refine .at' fun d h => ?_
  have he : ∀ t, t = d → Stands start pin t := held h
  refine Spec.readAt (SpecOr.checked he fun head hload => ?_)
  have hcat := (loadStateCheckpointChain_ok.mp hload).1.1
  refine SpecOr.after he (Keeps.ensure' _ _) fun _ => ?_
  refine .ite' (fun _ => .pure' _ (held h)) fun _ => ?_
  refine SpecOr.point' he fun _ => ?_
  refine .pre (P := fun t => Stands start pin t ∧ t.catalog = some head) ?_ fun t ht => ht ▸ ⟨h, hcat⟩
  refine Spec.bind' (Spec.forEach' fun l hl => ?_) (fun _ => SpecOr.final' (fun _ h => h.1) (fun _ h => h.1))
  refine .post (quarantine_keeps fun t ht => ?_) (fun _ _ h => h) (fun _ _ h => h.1) fun _ h => h.1
  have hdrop := ht.1.dropCheckpoint ht.2 (mem_strays.mp hl).2
  exact ⟨hdrop.aside rfl rfl rfl, ht.2⟩

theorem removeFile_stands (d : Directory) (path : DataFile) (h : Stands start pin d) :
    Stands start pin (d.removeFile path) := h.aside rfl rfl rfl

theorem commitState_stands : Keeps (Stands start pin) (commitPublishedSessionState temporary state) := by
  cases temporary with
  | none => exact writeSessionState_keeps fun _ h => h.aside rfl rfl rfl
  | some path =>
    refine .bind' (.read' _) fun _ => .bind' (.ensure' _ _) fun _ => ?_
    refine .bind' (.effect' _ _ fun _ h => h.aside rfl rfl rfl) fun _ => ?_
    refine .deferring' ?_ (.effect' _ _ fun d h => removeFile_stands d path h)
    refine .bind' (.point' _) fun _ => ?_
    exact .bind' (.effect' _ _ fun _ h => h.aside rfl rfl rfl) fun _ => .point' _

theorem publishCheckpoint_stands {current : Option Lineage} {previous : List Checkpoint} {n : Nat}
    (hready : ∀ c d, c.state = state → c.sequence = n → Stands start pin d → d.catalog = current →
      Ready start pin current c previous d) :
    LeadsTo (fun d => Stands start pin d ∧ d.catalog = current) (publishCheckpoint temporary state previous n) (Stands start pin) := by
  refine .after (fun _ h => h.1) (.read' _) fun d => ?_
  refine Spec.checked (fun _ _ h => h.1) fun c hbuild => ?_
  obtain ⟨hstate, hsequence, _, _⟩ := buildStateCheckpoint_ok hbuild
  refine SpecOr.after (fun _ h => h.1) (Keeps.ensure' _ _) fun _ => ?_
  refine .pre (writeCheckpointAndCatalog_stands current (commitState_stands.pre fun _ h => h.1)) ?_
  exact fun t h => hready c t hstate hsequence h.1 h.2

theorem publishSessionState_stands : Keeps (Stands start pin) (publishSessionState temporary state) := by
  refine Keeps.bind' (Keeps.point' _) fun _ => Spec.bind' (currentCheckpoint_keeps reconcile_stands) fun current => ?_
  cases current with
  | none =>
    refine publishCheckpoint_stands fun c d _ _ h hcat => ⟨h, hcat, rfl, fun head hhead => ?_⟩
    cases hhead
  | some head =>
    refine .bind' (M := fun _ d => (Stands start pin d ∧ d.catalog = some head) ∧
      head.checkpoint.state.generation ≤ state.generation)
      (.ensure' _ _ (fun hg d h => ⟨h, by simpa using hg⟩) fun _ h => h.1) fun _ => .given fun hgen => ?_
    refine SpecOr.after (fun _ h => h.1) (Keeps.ensure' _ _) fun _ => ?_
    refine .after (fun _ h => h.1) (.read' _) fun d => ?_
    refine .ite' (fun _ => commitState_stands.pre fun _ h => h.1) fun _ => ?_
    refine publishCheckpoint_stands fun c d hstate hsequence h hcat => ?_
    -- the new checkpoint follows the catalog's
    obtain ⟨hin, hlinked⟩ := h.chained head hcat
    have hlt : head.checkpoint.sequence < c.sequence := by omega
    have hle : head.checkpoint.state.generation ≤ c.state.generation := by rw [hstate]; exact hgen
    refine ⟨h, hcat, linked_next hin hlinked hlt hle, fun k hk => ?_⟩
    cases hk
    exact ⟨.inr hlt, hle, fun _ => suffix_cons _ _⟩

theorem refreshSessionStateCheckpoint_stands : Keeps (Stands start pin) (refreshSessionStateCheckpoint state) := by
  refine .bind' (.point' _) fun _ => .at' fun d h => ?_
  have he : ∀ t, t = d → Stands start pin t := held h
  refine Spec.readAt (SpecOr.after he (Keeps.ensure' _ _) fun _ => ?_)
  refine SpecOr.checked he fun head hload => ?_
  obtain ⟨hcat, hin⟩ := loadCatalogStateCheckpoint_ok.mp hload
  refine .after he (.ensure' _ _) fun _ => ?_
  refine .checked he fun _ _ => .checked he fun c hbuild => ?_
  obtain ⟨hstate, hsequence⟩ := buildRefreshedStateCheckpoint_ok hbuild
  have hlinked := (h.chained head hcat).2
  have hlt : head.checkpoint.sequence < c.sequence := by omega
  have hle : head.checkpoint.state.generation ≤ c.state.generation := by rw [hstate]
  refine .ite' (fun _ => .pure' _ (held h)) fun _ => .ite' (fun _ => ?_) fun hpin => ?_
  · -- a pin: the new checkpoint follows the catalog's
    refine .pre (writeCheckpointAndCatalog_stands (some head) (reconcile_stands.pre fun _ h => h.1)) ?_
    rintro t rfl
    refine ⟨h, hcat, linked_next hin hlinked hlt hle, fun k hk => ?_⟩
    cases hk
    exact ⟨.inr hlt, hle, fun _ => suffix_cons _ _⟩
  · -- no pin: it takes the place of the catalog's, which is then outside the lineage
    have hout : head ∉ (⟨c, head.previous⟩ : Lineage).ancestry := by
      intro hmem
      rcases Lineage.mem_ancestry_iff.mp hmem with heq | hsuffix
      · rw [heq] at hlt
        exact lt_irrefl _ hlt
      · exact head.not_chain_suffix_previous hsuffix
    refine .pre (writeCheckpointAndCatalog_stands (some head) ?_) ?_
    · have hremove := removeSupersededCheckpoint_keeps
        (I := fun t => Stands start pin t ∧ t.catalog = some ⟨c, head.previous⟩)
        fun t ht => ⟨ht.1.dropCheckpoint ht.2 hout, ht.2⟩
      exact .bind' (hremove.mono (fun _ _ h => h.1) (fun _ h => h.1)) fun _ => reconcile_stands
    · rintro t rfl
      refine ⟨h, hcat, linked_replace hlinked (le_of_lt hlt) hstate, fun k hk => ?_⟩
      cases hk
      refine ⟨.inr hlt, hle, fun hp => ?_⟩
      rw [← h.pinned] at hp
      exact absurd hp hpin

end

/-! ## Runs -/

inductive ChainStep (d : Directory) : Directory → Prop
  | publish (temporary : Option DataFile) (state : SessionState) (fs : List Fault) :
      ChainStep d (publishSessionState temporary state fs d).2.1
  | refresh (state : SessionState) (fs : List Fault) : ChainStep d (refreshSessionStateCheckpoint state fs d).2.1
  | reconcile (fs : List Fault) : ChainStep d (reconcileStateCheckpointHistory fs d).2.1
  | outside {d' : Directory} : d'.catalog = d.catalog → d'.checkpoints = d.checkpoints → ChainStep d d'

inductive ChainRun (meets : Directory → Prop) (d₀ : Directory) : Directory → Prop
  | refl : ChainRun meets d₀ d₀
  | step {d d' : Directory} : ChainRun meets d₀ d → meets d → ChainStep d d' → ChainRun meets d₀ d'

/-- A directory without a catalog, or with an initial checkpoint. -/
def Directory.Starts (d : Directory) : Prop :=
  ∀ h, d.catalog = some h → h ∈ d.checkpoints ∧ h.previous = []

theorem Directory.Starts.chained (h : d.Starts) : d.Chained := by
  intro k hk
  obtain ⟨hin, hfirst⟩ := h k hk
  refine ⟨hin, ?_⟩
  rw [hfirst]
  rfl

theorem ChainStep.later {d' : Directory} (hd : d.Chained) (h : ChainStep d d') :
    d'.Chained ∧ ∀ k, d.catalog = some k → ∃ l, d'.catalog = some l ∧ Later d.pin k l := by
  have hs : Stands d.catalog d.pin d := ⟨hd, rfl, fun k hk => ⟨k, hk, Later.refl _ _⟩⟩
  have hend : ∀ {t}, Stands d.catalog d.pin t →
      t.Chained ∧ ∀ k, d.catalog = some k → ∃ l, t.catalog = some l ∧ Later d.pin k l :=
    fun ht => ⟨ht.chained, ht.later⟩
  cases h with
  | publish temporary state fs => exact hend (publishSessionState_stands.state fs hs)
  | refresh state fs => exact hend (refreshSessionStateCheckpoint_stands.state fs hs)
  | reconcile fs => exact hend (reconcile_stands.state fs hs)
  | outside hcat hsame =>
    refine ⟨fun k hk => ?_, fun k hk => ⟨k, by rw [hcat]; exact hk, Later.refl _ _⟩⟩
    rw [hsame]
    rw [hcat] at hk
    exact hd k hk

section

variable {d₀ : Directory} (hd : d₀.Chained)
include hd

section

variable {meets : Directory → Prop} (h : ChainRun meets d₀ d)
include h

theorem ChainRun.chained : d.Chained := by
  induction h with
  | refl => exact hd
  | step _ _ hstep ih => exact (hstep.later ih).1

theorem ChainRun.later {k : Lineage} (hk : d₀.catalog = some k) : ∃ l, d.catalog = some l ∧ Later none k l := by
  induction h with
  | refl => exact ⟨k, hk, Later.refl _ _⟩
  | step hrun _ hstep ih =>
    obtain ⟨l, hl, hkl⟩ := ih
    obtain ⟨m, hm, hlm⟩ := (hstep.later (hrun.chained hd)).2 l hl
    exact ⟨m, hm, hkl.trans ⟨hlm.sequence, hlm.generation, nofun⟩⟩

end

theorem ChainRun.lineage (h : ChainRun (fun t => t.pin.isSome) d₀ d) {k : Lineage} (hk : d₀.catalog = some k) :
    ∃ l, d.catalog = some l ∧ k.chain <:+ l.chain := by
  induction h with
  | refl => exact ⟨k, hk, suffix_rfl⟩
  | step hrun hpin hstep ih =>
    obtain ⟨l, hl, hkl⟩ := ih
    obtain ⟨m, hm, hlm⟩ := (hstep.later (hrun.chained hd)).2 l hl
    exact ⟨m, hm, hkl.trans (hlm.lineage hpin)⟩

end

/-! ## Lineages are finite -/

theorem Lineage.ancestryFrom_nodup : ∀ (c : Checkpoint) (p : List Checkpoint), (ancestryFrom c p).Nodup
  | _, [] => nodup_singleton _
  | c, q :: rest => by
    refine nodup_cons.mpr ⟨fun hmem => ?_, ancestryFrom_nodup q rest⟩
    exact not_chain_suffix_previous _ ((mem_ancestryFrom _ q rest).mp hmem)

theorem Lineage.length_ancestryFrom : ∀ (c : Checkpoint) (p : List Checkpoint), (ancestryFrom c p).length = p.length + 1
  | _, [] => rfl
  | _, q :: rest => by
    show (ancestryFrom q rest).length + 1 = _
    rw [length_ancestryFrom q rest]
    rfl

theorem Lineage.ancestryFrom_split : ∀ (c : Checkpoint) (p : List Checkpoint), ∃ newer first,
    ancestryFrom c p = newer ++ [⟨first, []⟩]
  | c, [] => ⟨[], c, rfl⟩
  | c, q :: rest => by
    obtain ⟨newer, first, h⟩ := ancestryFrom_split q rest
    refine ⟨⟨c, q :: rest⟩ :: newer, first, ?_⟩
    show _ :: ancestryFrom q rest = _
    rw [h]
    rfl

section

variable {K : List Lineage} {h : Lineage} (hin : h ∈ K)
include hin

theorem ancestry_subset (hlinked : linked K h.checkpoint h.previous) : h.ancestry ⊆ K := by
  intro l hl
  rcases Lineage.mem_ancestry_iff.mp hl with rfl | hl
  · exact hin
  · exact linked_mem hlinked l hl

theorem previous_length_lt (hlinked : linked K h.checkpoint h.previous) : h.previous.length < K.length := by
  have hle := ((Lineage.ancestryFrom_nodup h.checkpoint h.previous).subperm (ancestry_subset hin hlinked)).length_le
  rw [Lineage.length_ancestryFrom] at hle
  exact hle

end

/-! ## The files by digest -/

structure CheckpointFile (δ : Type) where
  checkpoint : Checkpoint
  previousCheckpointSHA256 : Option δ
  deriving DecidableEq

/-- `sessionStateCatalog`. -/
structure StateCatalog (δ : Type) where
  generation : Nat
  sequence : Nat
  checkpointSHA256 : δ
  deriving DecidableEq

section
variable {δ : Type} [DecidableEq δ] (sha : CheckpointFile δ → δ)

def digestFrom : Checkpoint → List Checkpoint → δ
  | c, [] => sha ⟨c, none⟩
  | c, p :: rest => sha ⟨c, some (digestFrom p rest)⟩

variable (l : Lineage)

def Lineage.digest : δ := digestFrom sha l.checkpoint l.previous

def Lineage.previousDigest : Option δ :=
  match l.previous with
  | [] => none
  | p :: rest => some (digestFrom sha p rest)

def Lineage.file : CheckpointFile δ := ⟨l.checkpoint, l.previousDigest sha⟩

variable (d : Directory)

def Directory.checkpointFile (digest : δ) : Option (CheckpointFile δ) :=
  (d.checkpoints.find? (fun l => decide (l.digest sha = digest))).map (Lineage.file sha)

def Directory.stateCatalog : Option (StateCatalog δ) :=
  d.catalog.map (fun l => ⟨l.checkpoint.state.generation, l.checkpoint.sequence, l.digest sha⟩)

/-- The loop of `loadStateCheckpointChain`: the digests from one back to the first. No
    digest is visited twice, so there are no more rounds than files. -/
def followPrevious (find : δ → Option (CheckpointFile δ)) : Nat → List δ → δ → Except String (List δ)
  | 0, _, _ => .error "session state checkpoint lineage contains a cycle"
  | rounds + 1, visited, digest =>
    match find digest with
    | none => .error "session state checkpoint lineage is incomplete"
    | some file =>
      if digest ∈ visited then .error "session state checkpoint lineage contains a cycle"
      else match file.previousCheckpointSHA256 with
        | none => .ok (digest :: visited)
        | some previous =>
          match find previous with
          | none => .error "session state checkpoint lineage is invalid"
          | some parent =>
            if parent.checkpoint.sequence < file.checkpoint.sequence ∧
                parent.checkpoint.state.generation ≤ file.checkpoint.state.generation then
              followPrevious find rounds (digest :: visited) previous
            else .error "session state checkpoint lineage is invalid"

def Directory.lineage : Except String (List δ) :=
  match d.stateCatalog sha with
  | none => .error "session state catalog does not exist"
  | some catalog => followPrevious (d.checkpointFile sha) d.checkpoints.length [] catalog.checkpointSHA256

section
variable {sha : CheckpointFile δ → δ} (hsha : Injective sha)
include hsha

omit [DecidableEq δ] in
theorem digestFrom_injective : ∀ {c : Checkpoint} {p : List Checkpoint} {c' : Checkpoint} {p' : List Checkpoint},
    digestFrom sha c p = digestFrom sha c' p' → c = c' ∧ p = p'
  | _, [], _, [], h => ⟨(CheckpointFile.mk.inj (hsha h)).1, rfl⟩
  | _, [], _, _ :: _, h | _, _ :: _, _, [], h => nomatch (CheckpointFile.mk.inj (hsha h)).2
  | _, q :: rest, _, q' :: rest', h => by
    obtain ⟨hc, hp⟩ := CheckpointFile.mk.inj (hsha h)
    obtain ⟨hq, hrest⟩ := digestFrom_injective (some.inj hp)
    exact ⟨hc, by rw [hq, hrest]⟩

omit [DecidableEq δ] in
theorem Lineage.digest_injective {l k : Lineage} (h : l.digest sha = k.digest sha) : l = k := by
  obtain ⟨hc, hp⟩ := digestFrom_injective hsha h
  cases l
  cases k
  simp only at hc hp
  rw [hc, hp]

variable {d : Directory}

theorem checkpointFile_of_mem {l : Lineage} (hl : l ∈ d.checkpoints) :
    d.checkpointFile sha (l.digest sha) = some (l.file sha) := by
  unfold Directory.checkpointFile
  cases hfind : d.checkpoints.find? (fun k => decide (k.digest sha = l.digest sha)) with
  | none => simpa using find?_eq_none.mp hfind l hl
  | some k =>
    have hk : k = l := Lineage.digest_injective hsha (by simpa using find?_some hfind)
    rw [hk]
    rfl

theorem followPrevious_linked : ∀ {c : Checkpoint} {p : List Checkpoint} {rounds : Nat} {visited : List δ},
    ⟨c, p⟩ ∈ d.checkpoints → linked d.checkpoints c p → p.length < rounds →
    (∀ l ∈ Lineage.ancestryFrom c p, l.digest sha ∉ visited) →
    followPrevious (d.checkpointFile sha) rounds visited (digestFrom sha c p) =
      .ok (((Lineage.ancestryFrom c p).map (Lineage.digest sha)).reverse ++ visited)
  | c, [], rounds + 1, visited, hin, _, _, hnew => by
    have hfile : d.checkpointFile sha (digestFrom sha c []) = some ⟨c, none⟩ := checkpointFile_of_mem hsha hin
    have hfresh : digestFrom sha c [] ∉ visited := hnew ⟨c, []⟩ (.head _)
    simp [followPrevious, hfile, hfresh, Lineage.ancestryFrom, Lineage.digest]
  | c, q :: rest, rounds + 1, visited, hin, hlinked, hlen, hnew => by
    have hfile : d.checkpointFile sha (digestFrom sha c (q :: rest)) = some ⟨c, some (digestFrom sha q rest)⟩ :=
      checkpointFile_of_mem hsha hin
    have hfresh : digestFrom sha c (q :: rest) ∉ visited := hnew ⟨c, q :: rest⟩ (.head _)
    simp only [linked, Bool.and_eq_true, decide_eq_true_eq] at hlinked
    obtain ⟨⟨⟨hparent, hseq⟩, hgen⟩, hrest⟩ := hlinked
    have hfile' : d.checkpointFile sha (digestFrom sha q rest) = some (Lineage.file sha ⟨q, rest⟩) :=
      checkpointFile_of_mem hsha hparent
    have hstep : followPrevious (d.checkpointFile sha) (rounds + 1) visited (digestFrom sha c (q :: rest)) =
        followPrevious (d.checkpointFile sha) rounds (digestFrom sha c (q :: rest) :: visited) (digestFrom sha q rest) := by
      simp [followPrevious, hfile, hfresh, hfile', Lineage.file, hseq, hgen]
    rw [hstep, followPrevious_linked hparent hrest (by simpa using hlen) ?_]
    · simp [Lineage.ancestryFrom, Lineage.digest]
    · -- an ancestor is shorter than the checkpoint it comes before
      intro l hl hmem
      rcases mem_cons.mp hmem with heq | hmem
      · have := Lineage.digest_injective hsha (k := ⟨c, q :: rest⟩) heq
        subst this
        exact Lineage.not_chain_suffix_previous _ ((Lineage.mem_ancestryFrom _ q rest).mp hl)
      · exact hnew l (.tail _ hl) hmem

theorem lineage_of_chained (hd : d.Chained) {h : Lineage} (hcat : d.catalog = some h) :
    d.lineage sha = .ok ((h.ancestry.map (Lineage.digest sha)).reverse) := by
  obtain ⟨hin, hlinked⟩ := hd h hcat
  have hwalk : followPrevious (d.checkpointFile sha) d.checkpoints.length [] (h.digest sha) = _ :=
    followPrevious_linked hsha hin hlinked (previous_length_lt hin hlinked) nofun
  rw [append_nil] at hwalk
  simp only [Directory.lineage, Directory.stateCatalog, hcat, map_some]
  exact hwalk

omit [DecidableEq δ] hsha in
theorem sha_file (l : Lineage) : sha (l.file sha) = l.digest sha := by
  obtain ⟨c, p⟩ := l
  cases p <;> rfl

theorem ancestry_digests (hd : d.Chained) {h : Lineage} (hcat : d.catalog = some h) :
    ∃ first rest, (h.ancestry.map (Lineage.digest sha)).reverse = first :: rest ∧ (first :: rest).Nodup ∧
      ∃ file, d.checkpointFile sha first = some file ∧ file.previousCheckpointSHA256 = none := by
  obtain ⟨hin, hlinked⟩ := hd h hcat
  obtain ⟨newer, c, hsplit⟩ := Lineage.ancestryFrom_split h.checkpoint h.previous
  have hmem : (⟨c, []⟩ : Lineage) ∈ h.ancestry := by
    show _ ∈ Lineage.ancestryFrom h.checkpoint h.previous
    rw [hsplit]
    simp
  have hfile := checkpointFile_of_mem hsha (ancestry_subset hin hlinked hmem)
  have hlist : (h.ancestry.map (Lineage.digest sha)).reverse =
      Lineage.digest sha ⟨c, []⟩ :: (newer.map (Lineage.digest sha)).reverse := by
    show ((Lineage.ancestryFrom h.checkpoint h.previous).map _).reverse = _
    rw [hsplit]
    simp
  refine ⟨_, _, hlist, ?_, _, hfile, rfl⟩
  rw [← hlist, nodup_reverse]
  exact (Lineage.ancestryFrom_nodup h.checkpoint h.previous).map fun _ _ he => Lineage.digest_injective hsha he

end

/-- What the catalog of a directory promises. -/
structure Directory.Intact (d : Directory) (catalog : StateCatalog δ) : Prop where
  /-- The catalog names a checkpoint file. -/
  named : ∃ file, d.checkpointFile sha catalog.checkpointSHA256 = some file ∧ sha file = catalog.checkpointSHA256 ∧
    file.checkpoint.sequence = catalog.sequence ∧ file.checkpoint.state.generation = catalog.generation
  /-- Following the previous digests ends at an initial checkpoint. -/
  complete : ∃ first rest file, d.lineage sha = .ok (first :: rest) ∧ (first :: rest).Nodup ∧
    d.checkpointFile sha first = some file ∧ file.previousCheckpointSHA256 = none

/-- The chain of checkpoints over every run of publications, refreshes and
    reconciliations, each of which may stop anywhere: the catalog names an existing
    checkpoint whose lineage is complete, sequences increase whenever the catalog
    changes, generations never decrease, and while there is a pin no checkpoint leaves
    the lineage. -/
theorem checkpoint_chain_invariant (hsha : Injective sha) {d₀ d : Directory} (hstart : d₀.Starts)
    (h : ChainRun (fun _ => True) d₀ d) : (∀ catalog, d.stateCatalog sha = some catalog → d.Intact sha catalog ∧
      ∀ d', ChainRun (fun _ => True) d d' → ∃ catalog', d'.stateCatalog sha = some catalog' ∧
        (catalog' = catalog ∨ catalog.sequence < catalog'.sequence) ∧ catalog.generation ≤ catalog'.generation) ∧
    ∀ d' digests pinned, ChainRun (fun t => t.pin.isSome = true) d d' → d.lineage sha = .ok digests →
      pinned ∈ digests → ∃ digests', d'.lineage sha = .ok digests' ∧ pinned ∈ digests' := by
  have hd := h.chained hstart.chained
  refine ⟨fun catalog hcatalog => ?_, fun d' digests pinned hrun hdigests hpinned => ?_⟩
  · cases hcat : d.catalog with
    | none => simp [Directory.stateCatalog, hcat] at hcatalog
    | some head =>
      simp only [Directory.stateCatalog, hcat, map_some, some.injEq] at hcatalog
      subst hcatalog
      obtain ⟨hin, _⟩ := hd head hcat
      refine ⟨⟨⟨head.file sha, checkpointFile_of_mem hsha hin, sha_file head, rfl, rfl⟩, ?_⟩, fun d' hrun => ?_⟩
      · obtain ⟨first, rest, hlist, hnodup, file, hfile, hinitial⟩ := ancestry_digests hsha hd hcat
        refine ⟨first, rest, file, ?_, hnodup, hfile, hinitial⟩
        rw [lineage_of_chained hsha hd hcat, hlist]
      · obtain ⟨l, hl, hlater⟩ := hrun.later hd hcat
        refine ⟨⟨l.checkpoint.state.generation, l.checkpoint.sequence, l.digest sha⟩, ?_, ?_, hlater.generation⟩
        · simp [Directory.stateCatalog, hl]
        · rcases hlater.sequence with rfl | hlt
          · exact .inl rfl
          · exact .inr hlt
  · cases hcat : d.catalog with
    | none => simp [Directory.lineage, Directory.stateCatalog, hcat] at hdigests
    | some head =>
      rw [lineage_of_chained hsha hd hcat] at hdigests
      cases hdigests
      obtain ⟨l, hl, hsuffix⟩ := hrun.lineage hd hcat
      refine ⟨_, lineage_of_chained hsha (hrun.chained hd) hl, ?_⟩
      -- an ancestor of the old head is one of the new head
      rw [mem_reverse, List.mem_map] at hpinned ⊢
      obtain ⟨k, hk, rfl⟩ := hpinned
      exact ⟨k, Lineage.mem_ancestry.mpr ((Lineage.mem_ancestry.mp hk).trans hsuffix), rfl⟩

end

inductive SymbolicDigest where
  | first (checkpoint : Checkpoint)
  | next (checkpoint : Checkpoint) (previous : SymbolicDigest)
  deriving DecidableEq

def SymbolicDigest.of (file : CheckpointFile SymbolicDigest) : SymbolicDigest :=
  match file.previousCheckpointSHA256 with
  | none => .first file.checkpoint
  | some previous => .next file.checkpoint previous

theorem SymbolicDigest.of_injective : Injective SymbolicDigest.of := by
  rintro ⟨c, p⟩ ⟨c', p'⟩ h
  cases p <;> cases p' <;> simp_all [SymbolicDigest.of]

def chainSample : Directory := ((World.fresh .sample).after (openSession .sample true) []).dir

def chainRefreshed : Directory :=
  (refreshSessionStateCheckpoint SessionOptions.sample.initialState (faultAt 10 .crash) (chainSample.setFile .delta [3])).2.1

theorem checkpoint_chain_invariant_refreshed : ∃ catalog, chainRefreshed.stateCatalog SymbolicDigest.of = some catalog ∧
    catalog.sequence = 2 ∧ chainRefreshed.checkpoints.length = 2 ∧ chainRefreshed.Intact SymbolicDigest.of catalog := by
  have happend : ChainRun (fun _ => True) chainSample (chainSample.setFile .delta [3]) :=
    .step .refl trivial (.outside rfl rfl)
  have hrun : ChainRun (fun _ => True) chainSample chainRefreshed := .step happend trivial (.refresh _ _)
  have hstart : chainSample.Starts := by
    intro h hh
    cases hh
    exact ⟨by decide +kernel, rfl⟩
  refine ⟨_, rfl, by decide +kernel, by decide +kernel, ?_⟩
  exact ((checkpoint_chain_invariant SymbolicDigest.of SymbolicDigest.of_injective hstart hrun).1 _ rfl).1

end CodexFold.Vfs
