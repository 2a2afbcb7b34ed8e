import CodexFold.Mount.Namespace

/- The shape of a native tree.

   Every file and every directory lies in a directory, and no name is both. So nothing lies
   above a file or a directory but directories, and `Lstat` never goes through a file to a
   name whose directory is there. Every change the mount makes to the tree keeps it. -/
namespace CodexFold.Mount
open Foundation List

namespace Disk

structure Tree (d : Disk) : Prop where
  filed : ∀ p o, d.files.get p = some o → dir p ∈ d.directories
  nested : ∀ p ∈ d.directories, p ≠ [] → dir p ∈ d.directories
  disjoint : ∀ p o, d.files.get p = some o → p ∉ d.directories

theorem prefix_dropLast {α : Type} {l l' : List α} (h : l <+: l') (hne : l ≠ l') : l <+: l'.dropLast := by
  obtain ⟨r, rfl⟩ := h
  cases hr : r.getLast? with
  | none =>
    rw [getLast?_eq_none_iff] at hr
    subst hr
    exact absurd (append_nil l).symm hne
  | some x =>
    have hr' : r ≠ [] := fun h0 => by
      subst h0
      cases hr
    rw [dropLast_append_of_ne_nil hr']
    exact prefix_append _ _

section
variable {d d' : Disk}
variable {path old new : Path}

section

variable (h : d.Tree)
include h

theorem Tree.above : ∀ {p q : Path}, p ∈ d.directories → q <+: p → q ∈ d.directories := by
  intro p
  induction hlen : p.length using Nat.strong_induction_on generalizing p with
  | _ k ih =>
    intro q hp hq
    by_cases heq : q = p
    · exact heq ▸ hp
    · have hne : p ≠ [] := fun h0 => heq (by
        subst h0
        exact prefix_nil.mp hq)
      have hshort : (dir p).length < k := by
        unfold dir
        rw [length_dropLast, ← hlen]
        have := length_pos_of_ne_nil hne
        omega
      exact ih _ hshort rfl (h.nested p hp hne) (prefix_dropLast hq heq)

theorem Tree.aboveFile {p q : Path} {o : Nat} (hp : d.files.get p = some o) (hq : q <+: p) (hne : q ≠ p) :
    q ∈ d.directories :=
  h.above (h.filed p o hp) (prefix_dropLast hq hne)

theorem Tree.of_eq (hfiles : d'.files = d.files) (hdirectories : d'.directories = d.directories) : d'.Tree := by
  refine ⟨?_, ?_, ?_⟩
  · rw [hfiles, hdirectories]
    exact h.filed
  · rw [hdirectories]
    exact h.nested
  · rw [hfiles, hdirectories]
    exact h.disjoint

theorem Tree.erase (path : Path) : { d with files := d.files.erase path }.Tree := by
  have hold : ∀ p o, (d.files.erase path).get p = some o → d.files.get p = some o := fun p o hp => by
    exact get_of_erase hp
  exact ⟨fun p o hp => h.filed p o (hold p o hp), h.nested, fun p o hp => h.disjoint p o (hold p o hp)⟩

theorem Tree.put {o : Nat} {contents : Nat → Bytes} {fresh : Nat} (hdir : dir path ∈ d.directories)
    (hname : path ∉ d.directories) :
    { d with files := d.files.set path o, contents := contents, fresh := fresh }.Tree := by
  refine ⟨fun p o' hp => ?_, h.nested, fun p o' hp => ?_⟩
  · rw [get_set] at hp
    split at hp
    · subst p
      exact hdir
    · exact h.filed p o' hp
  · rw [get_set] at hp
    split at hp
    · subst p
      exact hname
    · exact h.disjoint p o' hp

theorem Tree.mkdir (hmkdir : d.mkdir path = .ok d') : d'.Tree := by
  obtain ⟨hfree, hmkdir⟩ := of_guard hmkdir
  obtain ⟨hdir, hmkdir⟩ := of_guard hmkdir
  cases hmkdir
  have hdir : dir path ∈ d.directories := by simpa using hdir
  have hnone : d.files.get path = none := by
    rw [Bool.or_eq_true, not_or] at hfree
    simpa using hfree.1
  refine ⟨fun p o hp => mem_cons_of_mem _ (h.filed p o hp), fun p hp hne => ?_, fun p o hp hmem => ?_⟩
  · rcases mem_cons.mp hp with rfl | hp
    · exact .tail _ hdir
    · exact .tail _ (h.nested p hp hne)
  · rcases mem_cons.mp hmem with rfl | hmem
    · exact nomatch hnone.symm.trans hp
    · exact h.disjoint p o hp hmem

theorem Tree.remove (hremove : d.remove path = .ok d') : d'.Tree := by
  unfold Disk.remove at hremove
  cases hget : d.files.get path with
  | some o =>
    rw [hget] at hremove
    cases hremove
    exact h.erase path
  | none =>
    rw [hget] at hremove
    simp only at hremove
    obtain ⟨-, hremove⟩ := of_guard hremove
    obtain ⟨hempty, hremove⟩ := of_guard hremove
    cases hremove
    obtain ⟨hfiles, hdirs⟩ := Bool.and_eq_true_iff.mp (by simpa using hempty : d.emptyDirectory path = true)
    have hkeep : ∀ p, path ≠ dir p → dir p ∈ d.directories → dir p ∈ d.directories.filter (· != path) := fun p hne hp =>
      mem_filter.mpr ⟨hp, bne_iff_ne.mpr (Ne.symm hne)⟩
    refine ⟨fun p o hp => hkeep p (fun heq => ?_) (h.filed p o hp), fun p hp hne => ?_, fun p o hp hmem =>
      h.disjoint p o hp (mem_filter.mp hmem).1⟩
    · have hout := all_eq_true.mp hfiles p (d.files.mem_names.mpr ⟨o, hp⟩)
      have hin : path.isPrefixOf p := isPrefixOf_iff_prefix.mpr (heq ▸ dropLast_prefix p)
      rw [hin] at hout
      cases hout
    · obtain ⟨hp, hother⟩ := mem_filter.mp hp
      refine hkeep p (fun heq => ?_) (h.nested p hp hne)
      have hout := all_eq_true.mp hdirs p hp
      have hin : path.isPrefixOf p := isPrefixOf_iff_prefix.mpr (heq ▸ dropLast_prefix p)
      rw [hin] at hout
      simp only [Bool.not_true, Bool.or_false, beq_iff_eq] at hout
      exact (bne_iff_ne.mp hother) hout

end

theorem moved_under (r : Path) : moved old new (old ++ r) = new ++ r := by
  unfold moved
  rw [if_pos ( isPrefixOf_iff_prefix.mpr (prefix_append old r)), drop_left]

theorem moved_outside {p : Path} (h : ¬old <+: p) : moved old new p = p := by
  unfold moved
  rw [if_neg fun hp => h ( isPrefixOf_iff_prefix.mp hp)]

theorem dir_moved {p : Path} (hne : p ≠ old) : dir (moved old new p) = moved old new (dir p) := by
  by_cases hp : old <+: p
  · obtain ⟨r, rfl⟩ := hp
    have hr : r ≠ [] := fun h0 => hne (by rw [h0, append_nil])
    unfold dir
    rw [moved_under, dropLast_append_of_ne_nil hr, dropLast_append_of_ne_nil hr, moved_under]
  · have hdir : ¬old <+: dir p := fun h => hp (h.trans ( dropLast_prefix p))
    rw [moved_outside hp, moved_outside hdir]

theorem Tree.renameDirectory (h : d.Tree) (hold : old ∈ d.directories) (hdir : dir new ∈ d.directories)
    (hnew : new ∉ d.directories) (hout : ¬old <+: new) (hfree : d.files.get new = none) :
    { d with files := d.files.rekey (moved old new), directories := d.directories.map (moved old new) }.Tree := by
  have hroot : old ≠ [] := fun h0 => hout (h0 ▸ nil_prefix)
  refine ⟨fun p' o hp' => ?_, fun p' hp' hne => ?_, fun p' o hp' hmem => ?_⟩
  · obtain ⟨p, rfl, hp⟩ := exists_of_get_rekey hp'
    have hne : p ≠ old := fun heq => h.disjoint p o hp (heq ▸ hold)
    rw [dir_moved hne]
    exact mem_map_of_mem (h.filed p o hp)
  · obtain ⟨p, hp, rfl⟩ := mem_map.mp hp'
    by_cases heq : p = old
    · -- the directory itself lies where it was renamed to
      subst heq
      have hself : moved p new p = new := by simpa using @moved_under p new []
      have hstay : ¬p <+: dir new := fun hp => hout (hp.trans ( dropLast_prefix new))
      rw [hself, ← @moved_outside p new _ hstay]
      exact mem_map_of_mem hdir
    · rw [dir_moved heq]
      refine mem_map_of_mem (h.nested p hp fun h0 => hne ?_)
      rw [h0, moved_outside fun hnil => hroot (prefix_nil.mp hnil)]
  · obtain ⟨p, rfl, hp⟩ := exists_of_get_rekey hp'
    obtain ⟨q, hq, hmoved⟩ := mem_map.mp hmem
    by_cases hpold : old <+: p
    · obtain ⟨r, rfl⟩ := hpold
      rw [moved_under] at hmoved
      by_cases hqold : old <+: q
      · obtain ⟨r', rfl⟩ := hqold
        rw [moved_under] at hmoved
        exact h.disjoint _ o hp (append_cancel_left hmoved ▸ hq)
      · rw [moved_outside hqold] at hmoved
        exact hnew (h.above hq (hmoved ▸ prefix_append new r))
    · rw [moved_outside hpold] at hmoved
      by_cases hqold : old <+: q
      · obtain ⟨r', rfl⟩ := hqold
        rw [moved_under] at hmoved
        subst hmoved
        by_cases hr : new = new ++ r'
        · rw [← hr, hfree] at hp
          cases hp
        · exact hnew (h.aboveFile hp (prefix_append new r') hr)
      · rw [moved_outside hqold] at hmoved
        exact h.disjoint p o hp (hmoved ▸ hq)

theorem Tree.rename (h : d.Tree) (hrename : d.rename old new = .ok d') : d'.Tree := by
  unfold Disk.rename at hrename
  cases hget : d.files.get old with
  | some o =>
    rw [hget] at hrename
    simp only at hrename
    obtain ⟨hdir, hrename⟩ := of_guard hrename
    obtain ⟨hname, hrename⟩ := of_guard hrename
    cases hrename
    exact (h.erase old).put (by simpa using hdir) (by simpa using hname)
  | none =>
    rw [hget] at hrename
    simp only at hrename
    obtain ⟨hdirs, hrename⟩ := of_guard hrename
    obtain ⟨hname, hrename⟩ := of_guard hrename
    obtain ⟨hout, hrename⟩ := of_guard hrename
    obtain ⟨hfree, hrename⟩ := of_guard hrename
    cases hrename
    rw [Bool.or_eq_true, not_or] at hdirs
    exact h.renameDirectory (by simpa using hdirs.1) (by simpa using hdirs.2) (by simpa using hname)
      (fun hp => hout ( isPrefixOf_iff_prefix.mpr hp)) (by simpa using hfree)

theorem Sound.remove (h : d.Sound) (hremove : d.remove path = .ok d') : d'.Sound := by
  obtain ⟨hfiles, -, hfresh, hjournals⟩ := remove_frame hremove
  exact h.fewer hfiles hjournals hfresh

theorem Sound.mkdir (h : d.Sound) (hmkdir : d.mkdir path = .ok d') : d'.Sound := by
  obtain ⟨-, hmkdir⟩ := of_guard hmkdir
  obtain ⟨-, hmkdir⟩ := of_guard hmkdir
  cases hmkdir
  exact h.of_eq rfl rfl rfl

end

end Disk

end CodexFold.Mount
