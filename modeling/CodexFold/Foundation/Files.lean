import Mathlib

/- A directory as a finite map from names to contents. The entries are a list, so
   that a walk over the directory has an order, and no name occurs twice. -/
namespace CodexFold.Foundation
open List

/-- A directory whose names are `κ` and whose files hold a `ν` each. -/
structure Files (κ ν : Type) where
  entries : List (κ × ν)
  nodup : (entries.map Prod.fst).Nodup

namespace Files
variable {κ ν : Type}

def empty : Files κ ν := ⟨[], nodup_nil⟩

def names (m : Files κ ν) : List κ := m.entries.map Prod.fst

variable [DecidableEq κ]

def find (k : κ) : List (κ × ν) → Option ν
  | [] => none
  | (k', v) :: rest => if k' = k then some v else find k rest

def get (m : Files κ ν) (k : κ) : Option ν := find k m.entries

def erase (m : Files κ ν) (k : κ) : Files κ ν :=
  ⟨m.entries.filter (fun e => !decide (e.1 = k)), m.nodup.sublist (filter_sublist.map _)⟩

theorem not_mem_erase (m : Files κ ν) (k : κ) : k ∉ (m.erase k).entries.map Prod.fst := by
  simp [erase]

def set (m : Files κ ν) (k : κ) (v : ν) : Files κ ν :=
  ⟨(k, v) :: (m.erase k).entries, nodup_cons.mpr ⟨m.not_mem_erase k, (m.erase k).nodup⟩⟩

theorem find_filter_self (k : κ) (l : List (κ × ν)) : find k (l.filter (fun e => !decide (e.1 = k))) = none := by
  induction l with
  | nil => rfl
  | cons e rest ih =>
    obtain ⟨k', v⟩ := e
    by_cases h : k' = k <;> simp [find, h, ih]

variable {k : κ}

theorem find_filter_ne {k' : κ} (h : k' ≠ k) (l : List (κ × ν)) :
    find k' (l.filter (fun e => !decide (e.1 = k))) = find k' l := by
  induction l with
  | nil => rfl
  | cons e rest ih =>
    obtain ⟨c, v⟩ := e
    by_cases hc : c = k
    · have hne : k ≠ k' := fun e => h e.symm
      simp [find, hc, ih, hne]
    · simp [find, hc, ih]

@[simp] theorem get_empty (k : κ) : (empty : Files κ ν).get k = none := rfl

section

variable (m : Files κ ν)
include m

@[simp] theorem get_erase_self (k : κ) : (m.erase k).get k = none :=
  find_filter_self k m.entries

@[simp] theorem get_erase_ne {k k' : κ} (h : k' ≠ k) : (m.erase k).get k' = m.get k' :=
  find_filter_ne h m.entries

@[simp] theorem get_set_self (k : κ) (v : ν) : (m.set k v).get k = some v := by
  simp [set, get, find]

@[simp] theorem get_set_ne {k k' : κ} (v : ν) (h : k' ≠ k) : (m.set k v).get k' = m.get k' := by
  have hne : k ≠ k' := fun e => h e.symm
  have he := m.get_erase_ne h
  simpa [set, get, find, hne] using he

theorem get_set (k k' : κ) (v : ν) : (m.set k v).get k' = if k' = k then some v else m.get k' := by
  by_cases h : k' = k
  · simp [h]
  · simp [h]

theorem get_erase (k k' : κ) : (m.erase k).get k' = if k' = k then none else m.get k' := by
  by_cases h : k' = k
  · simp [h]
  · simp [h]

omit m in
theorem get_of_erase {m : Files κ ν} {k k' : κ} {v : ν} (h : (m.erase k).get k' = some v) : m.get k' = some v := by
  rw [get_erase] at h
  split at h
  · cases h
  · exact h

theorem erase_set (k : κ) (v : ν) : (m.set k v).erase k = m.erase k := by
  simp [set, erase]

end

def keep (m : Files κ ν) (p : κ → Bool) : Files κ ν :=
  ⟨m.entries.filter (fun e => p e.1), m.nodup.sublist (filter_sublist.map _)⟩

theorem find_filter (p : κ → Bool) (k : κ) (l : List (κ × ν)) :
    find k (l.filter (fun e => p e.1)) = if p k then find k l else none := by
  induction l with
  | nil => simp [find]
  | cons e rest ih =>
    obtain ⟨c, v⟩ := e
    by_cases hc : c = k
    · subst hc
      by_cases hp : p c = true
      · simp [find, hp]
      · simp [hp, ih]
    · by_cases hp : p c = true
      · simp [find, hp, hc, ih]
      · simp [find, hp, hc, ih]

theorem get_keep (m : Files κ ν) (p : κ → Bool) (k : κ) : (m.keep p).get k = if p k then m.get k else none :=
  find_filter p k m.entries

theorem find_eq_some_iff {v : ν} : ∀ {l : List (κ × ν)}, (l.map Prod.fst).Nodup →
    (find k l = some v ↔ (k, v) ∈ l)
  | [], _ => by simp [find]
  | (k', v') :: rest, hn => by
    obtain ⟨hk, hr⟩ := nodup_cons.mp hn
    by_cases h : k' = k
    · subst h
      have hout : (k', v) ∉ rest := fun hm => hk (mem_map.mpr ⟨_, hm, rfl⟩)
      simp [find, hout, eq_comm]
    · have hne : k ≠ k' := fun e => h e.symm
      simp [find, h, hne, find_eq_some_iff hr]

theorem get_eq_some_iff (m : Files κ ν) {v : ν} : m.get k = some v ↔ (k, v) ∈ m.entries :=
  find_eq_some_iff m.nodup

theorem mem_names (m : Files κ ν) : k ∈ m.names ↔ ∃ v, m.get k = some v := by
  simp [names, get_eq_some_iff]

def map {μ : Type} (f : ν → μ) (m : Files κ ν) : Files κ μ :=
  ⟨m.entries.map fun e => (e.1, f e.2), by simpa [Function.comp_def] using m.nodup⟩

theorem get_map {μ : Type} (f : ν → μ) (m : Files κ ν) (k : κ) : (m.map f).get k = (m.get k).map f := by
  have hentries : ∀ l : List (κ × ν), find k (l.map fun e => (e.1, f e.2)) = (find k l).map f := by
    intro l
    induction l with
    | nil => rfl
    | cons e rest ih =>
      by_cases h : e.1 = k <;> simp [find, h, ih]
  exact hentries m.entries

def rekey (m : Files κ ν) (f : κ → κ) : Files κ ν :=
  m.entries.foldr (fun e renamed => renamed.set (f e.1) e.2) empty

theorem get_rekey {m : Files κ ν} {f : κ → κ} {v : ν} (h : m.get k = some v) (hunique : ∀ j, f j = f k → j = k) :
    (m.rekey f).get (f k) = some v := by
  have hentries : ∀ l : List (κ × ν), (∀ e ∈ l, e.1 = k → e.2 = v) → (∃ e ∈ l, e.1 = k) →
      (l.foldr (fun e renamed => renamed.set (f e.1) e.2) empty).get (f k) = some v := by
    intro l
    induction l with
    | nil => rintro - ⟨e, he, -⟩; cases he
    | cons e rest ih =>
      intro hvalue hkey
      rw [List.foldr_cons, get_set]
      split
      · next heq => rw [hvalue e (.head _) (hunique e.1 heq.symm)]
      · next hne =>
        refine ih (fun e' he' => hvalue e' (.tail _ he')) ?_
        obtain ⟨e', he', hk⟩ := hkey
        rcases List.mem_cons.mp he' with rfl | hrest
        · exact absurd (congrArg f hk.symm) hne
        · exact ⟨e', hrest, hk⟩
  refine hentries m.entries (fun e he hk => ?_) ⟨(k, v), m.get_eq_some_iff.mp h, rfl⟩
  have hget : m.get e.1 = some e.2 := m.get_eq_some_iff.mpr he
  rw [hk, h] at hget
  exact (Option.some.inj hget).symm

theorem exists_of_get_rekey {m : Files κ ν} {f : κ → κ} {v : ν} (h : (m.rekey f).get k = some v) :
    ∃ k', f k' = k ∧ m.get k' = some v := by
  have hentries : ∀ l : List (κ × ν), (l.foldr (fun e renamed => renamed.set (f e.1) e.2) empty).get k = some v →
      ∃ e ∈ l, f e.1 = k ∧ e.2 = v := by
    intro l
    induction l with
    | nil => exact fun h => absurd h (by simp)
    | cons e rest ih =>
      intro hget
      rw [foldr_cons, get_set] at hget
      by_cases hk : k = f e.1
      · rw [if_pos hk] at hget
        exact ⟨e, .head _, hk.symm, Option.some.inj hget⟩
      · rw [if_neg hk] at hget
        obtain ⟨e', he', hrest⟩ := ih hget
        exact ⟨e', mem_cons_of_mem _ he', hrest⟩
  obtain ⟨e, he, hk, hv⟩ := hentries m.entries h
  exact ⟨e.1, hk, m.get_eq_some_iff.mpr (hv ▸ he)⟩

end Files

export Files (get_rekey get_set get_set_self get_set_ne get_erase get_erase_self get_erase_ne get_of_erase get_keep get_eq_some_iff
  exists_of_get_rekey)

end CodexFold.Foundation
