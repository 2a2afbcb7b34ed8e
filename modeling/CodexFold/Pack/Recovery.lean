import CodexFold.Pack.Publication

/- Recovery moves a coherent store to a settled one.

   Each program of the recovery path ends settled from its phase, or stops in a
   coherent store, and it returns when nothing fails. None of these programs touches
   the files or the generations. -/
namespace CodexFold.Pack
open Foundation Fold

section
variable {Digest : Type} [DecidableEq Digest] {content : Content Digest} {ever : Prop}
variable {s : PackStore Digest}

structure At (content : Content Digest) (ever : Prop) (files : Store Digest)
    (generations : Files Nat (Generation Digest)) (s : PackStore Digest) : Prop where
  basis : Basis content ever s
  files : s.files = files
  generations : s.generations = generations

variable {files : Store Digest} {generations : Files Nat (Generation Digest)}
  {next marker : PublishedGeneration Digest}

section

variable (hb : Basis content ever s)
include hb

theorem Settled.coherent (h : Settled marker s) : Coherent content ever s := ⟨hb, .inr (.inl ⟨marker, h⟩)⟩

theorem Marked.coherent (h : Marked content marker next s) :
    Coherent content ever s := ⟨hb, .inr (.inr (.inl ⟨marker, next, h⟩))⟩

theorem Headed.coherent (h : Headed content next s) : Coherent content ever s := ⟨hb, .inr (.inr (.inr ⟨next, h⟩))⟩

end

/-! ## The two last steps of a publication -/

theorem publishCurrent_settles :
    CompletesOr (fun s => At content ever files generations s ∧ Headed content next s) (publishCurrent next.generation)
      (fun _ s => At content ever files generations s ∧ Settled next s) (Coherent content ever) := by
  refine .replace (fun s ⟨hat, hh⟩ => ?_) (fun _ h => h.2.coherent h.1.basis) fun _ h => h.2.coherent h.1.basis
  refine ⟨⟨⟨hat.basis.backed, hat.basis.sealed, hat.basis.markers, fun _ => rfl⟩, hat.files, hat.generations⟩, ?_⟩
  exact ⟨hh.head, hh.pending.onDisk, rfl, hh.pending.newest⟩

theorem publishPublicationHead_heads :
    CompletesOr (fun s => (At content ever files generations s ∧ Coherent content ever s) ∧ Pending content next s) (publishPublicationHead next)
      (fun _ s => At content ever files generations s ∧ Headed content next s) (Coherent content ever) := by
  refine .at' fun s ⟨⟨hat, hc⟩, hp⟩ => .readAt ?_
  obtain ⟨generation, hget, hm⟩ := hp.onDisk
  simp only [hget, Option.bind_some, hm]
  refine .replace ?_ (held hc) fun _ h => h.2.coherent h.1.basis
  rintro _ rfl
  refine ⟨⟨⟨hat.basis.backed, hat.basis.sealed, hat.basis.markers, hat.basis.made⟩, hat.files, hat.generations⟩, rfl, ?_⟩
  exact ⟨⟨generation, hget, hm⟩, hp.current, hp.held, hp.newest, hp.reconstructs⟩

/-! ## Promotion -/

theorem promote_marked : CompletesOr (fun s => At content ever files generations s ∧ Marked content marker next s) (promotePublishedGenerationLocked content next true)
      (fun r s => r = next.generation ∧ At content ever files generations s ∧ Settled next s) (Coherent content ever) := by
  refine .at' fun s h => .readAt (.checked (h.2.pending.check h.1.basis) ?_)
  have hready : ∀ t, t = s → (At content ever files generations t ∧ Coherent content ever t) ∧ Pending content next t :=
    fun t ht => ht ▸ ⟨⟨h.1, h.2.coherent h.1.basis⟩, h.2.pending⟩
  refine .bind' (publishPublicationHead_heads.pre hready) fun _ => ?_
  exact .bind' publishCurrent_settles fun _ => .pure' _ fun _ h => ⟨rfl, h⟩

theorem promote_headed : CompletesOr (fun s => At content ever files generations s ∧ Headed content next s) (promotePublishedGenerationLocked content next false)
      (fun r s => r = next.generation ∧ At content ever files generations s ∧ Settled next s) (Coherent content ever) := by
  refine .at' fun s h => .readAt (.checked (h.2.pending.check h.1.basis) ?_)
  refine .bind' (publishCurrent_settles.pre (held h)) fun _ => ?_
  exact .pure' _ fun _ h => ⟨rfl, h⟩

/-! ## Recovery of a half-published head -/

theorem recover_headed (hmax : next.sequence ≠ maxSequence) :
    CompletesOr (fun s => At content ever files generations s ∧ Headed content next s) (recoverCurrentGenerationLocked content)
      (fun r s => r = next.generation ∧ At content ever files generations s ∧ Settled next s) (Coherent content ever) := by
  refine .at' fun s ⟨hat, hh⟩ => .readAt ?_
  refine .checked (hat.basis.readHead hh.head hh.pending.onDisk) (.readAt ?_)
  -- the head's marker is the newest, so the loop finds nothing
  refine .checked (hat.basis.noSuccessor hh.pending.newest hmax) ?_
  exact promote_headed.pre fun t ht => ht ▸ ⟨hat, hh⟩

theorem recover_exhausted (hb : Basis content ever s) (h : Headed content next s)
    (hmax : next.sequence = maxSequence) (fs : List Fault) :
    recoverCurrentGenerationLocked content fs s = (.failed "pack publication sequence cannot advance", s, fs) := by
  simp [recoverCurrentGenerationLocked, Prog.bind_apply, hb.readHead h.head h.pending.onDisk, ofExcept,
    findPublishedSuccessor, hmax]

end

end CodexFold.Pack
