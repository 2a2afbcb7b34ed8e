import CodexFold.Foundation.Reach

/- The family of a session (`internal/family`).

   `Build` searches the spawn edges three times: both ways for the family itself, and for
   each member down from it and down from the seed. -/
namespace CodexFold.Family
open Foundation List Relation

structure SpawnEdge where
  parentID : String
  childID : String
  status : String

structure Session where
  id : String
  title : String
  cwd : String
  rolloutPath : String
  archived : Bool
  gitBranch : String

inductive GraphRelation where
  | seed
  | ancestor
  | descendant
  | collateral
  | none
  deriving DecidableEq

structure Member where
  session : Session
  relationToSeed : GraphRelation

structure Report where
  seedID : String
  members : List Member
  edges : List SpawnEdge
  missingSessionIDs : List String

def children (edges : List SpawnEdge) (id : String) : List String :=
  edges.flatMap fun e => if e.parentID = id then [e.childID] else []

def adjacent (edges : List SpawnEdge) (id : String) : List String :=
  edges.flatMap fun e => (if e.parentID = id then [e.childID] else []) ++ if e.childID = id then [e.parentID] else []

def ends (edges : List SpawnEdge) : List String := edges.flatMap fun e => [e.parentID, e.childID]

def reachable (start target : String) (edges : List SpawnEdge) : Bool :=
  (sweep (some target) (children edges) (ends edges) start).isNone

def connected (start target : String) (edges : List SpawnEdge) : Bool :=
  (sweep (some target) (adjacent edges) (ends edges) start).isNone

def graphRelation (leftID rightID : String) (edges : List SpawnEdge) : GraphRelation :=
  if leftID = rightID then .seed
  else if reachable leftID rightID edges then .ancestor
  else if reachable rightID leftID edges then .descendant
  else if connected leftID rightID edges then .collateral
  else .none

def byID (sessions : List Session) (id : String) : Option Session := sessions.reverse.find? fun s => s.id = id

def build (order : (l : List String) → { l' : List String // l'.Perm l }) (seedID : String) (sessions : List Session)
    (edges : List SpawnEdge) : Except String Report :=
  if (byID sessions seedID).isNone then .error ("session not found: " ++ seedID)
  else
    let component := (sweep none (adjacent edges) (ends edges) seedID).getD []
    let ranged := (order component).1
    .ok {
      seedID
      members := (ranged.filterMap fun id => (byID sessions id).map fun s => ⟨s, graphRelation s.id seedID edges⟩).mergeSort
        fun a b => a.session.id ≤ b.session.id
      missingSessionIDs := (ranged.filter fun id => (byID sessions id).isNone).mergeSort
      edges := (edges.filter fun e => e.parentID ∈ component ∧ e.childID ∈ component).mergeSort fun a b =>
        if a.parentID ≠ b.parentID then a.parentID ≤ b.parentID
        else if a.childID ≠ b.childID then a.childID ≤ b.childID
        else a.status ≤ b.status }

/-! ## Paths -/

section
variable {edges : List SpawnEdge} {a b : String}

def Spawned (edges : List SpawnEdge) (a b : String) : Prop := ∃ e ∈ edges, e.parentID = a ∧ e.childID = b

def Leads (edges : List SpawnEdge) : String → String → Prop := ReflTransGen (Spawned edges)

def Related (edges : List SpawnEdge) : String → String → Prop :=
  ReflTransGen fun a b => Spawned edges a b ∨ Spawned edges b a

theorem mem_children : b ∈ children edges a ↔ Spawned edges a b := by
  simp only [children, Spawned, mem_flatMap, mem_ite_nil_right, mem_singleton, eq_comm]

theorem mem_adjacent : b ∈ adjacent edges a ↔ Spawned edges a b ∨ Spawned edges b a := by
  simp only [adjacent, Spawned, mem_flatMap, mem_append, mem_ite_nil_right, mem_singleton]
  grind

theorem mem_ends (h : Spawned edges a b) : a ∈ ends edges ∧ b ∈ ends edges := by
  obtain ⟨e, he, rfl, rfl⟩ := h
  exact ⟨mem_flatMap.mpr ⟨e, he, by simp⟩, mem_flatMap.mpr ⟨e, he, by simp⟩⟩

theorem adjacent_ends (edges : List SpawnEdge) : ∀ x, ∀ y ∈ adjacent edges x, y ∈ ends edges := fun _ _ hy =>
  (mem_adjacent.mp hy).elim (fun h => (mem_ends h).2) fun h => (mem_ends h).1

theorem reachable_iff (hne : a ≠ b) : reachable a b edges = true ↔ Leads edges a b := by
  rw [reachable, Option.isNone_iff_eq_none, sweep_eq_none fun _ _ hy => (mem_ends (mem_children.mp hy)).2, Leads,
    reflTransGen_iff_eq_or_transGen, or_iff_right hne.symm]
  delta Next
  simp only [mem_children]

theorem connected_of_related (hne : a ≠ b) (h : Related edges b a) : connected a b edges = true := by
  have hback : Related edges a b := ReflTransGen.mono (fun _ _ => Or.symm) _ _ (reflTransGen_swap.mpr h)
  rw [connected, Option.isNone_iff_eq_none, sweep_eq_none (adjacent_ends edges)]
  delta Next
  simp only [mem_adjacent]
  exact (reflTransGen_iff_eq_or_transGen.mp hback).resolve_left hne.symm

theorem graphRelation_spec (hne : a ≠ b) (h : Related edges b a) :
    (graphRelation a b edges = .ancestor ↔ Leads edges a b) ∧
      (graphRelation a b edges = .descendant ↔ ¬Leads edges a b ∧ Leads edges b a) ∧
      (graphRelation a b edges = .collateral ↔ ¬Leads edges a b ∧ ¬Leads edges b a) := by
  rw [graphRelation, if_neg hne, connected_of_related hne h, ← reachable_iff hne, ← reachable_iff hne.symm]
  cases reachable a b edges <;> cases reachable b a edges <;> simp

end

/-! ## The report -/

/-- The report shows `family`, the component of the seed. -/
structure Report.Exact (report : Report) (seedID : String) (sessions : List Session) (edges : List SpawnEdge)
    (family : List String) : Prop where
  nodup : family.Nodup
  component : ∀ id, id ∈ family ↔ Related edges seedID id
  members : (report.members.map fun m => m.session.id).Perm (family.filter fun id => (byID sessions id).isSome)
  missing : report.missingSessionIDs.Perm (family.filter fun id => (byID sessions id).isNone)
  inside : report.edges.Perm (edges.filter fun e => e.parentID ∈ family ∧ e.childID ∈ family)
  relations : ∀ m ∈ report.members, byID sessions m.session.id = some m.session ∧ (m.session.id ≠ seedID →
    (m.relationToSeed = .ancestor ↔ Leads edges m.session.id seedID) ∧
    (m.relationToSeed = .descendant ↔ ¬Leads edges m.session.id seedID ∧ Leads edges seedID m.session.id) ∧
    (m.relationToSeed = .collateral ↔ ¬Leads edges m.session.id seedID ∧ ¬Leads edges seedID m.session.id))

theorem byID_id {sessions : List Session} {id : String} {s : Session} (h : byID sessions id = some s) : s.id = id := by
  simpa using find?_some h

/-- Family reports are exact: `Build` fails for a seed that is not listed, and otherwise reports
    the undirected component of the seed, the edges inside it, and how each member is related to
    the seed. -/
theorem build_exact (order : (l : List String) → { l' : List String // l'.Perm l }) (seedID : String)
    (sessions : List Session) (edges : List SpawnEdge) : match build order seedID sessions edges with
    | .error _ => ∀ s ∈ sessions, s.id ≠ seedID
    | .ok report => ∃ family, report.Exact seedID sessions edges family := by
  by_cases hseed : (byID sessions seedID).isNone
  · simp only [build, hseed, if_true]
    simpa [byID] using hseed
  obtain ⟨family, hsweep, hnodup, hfamily⟩ := sweep_eq_some (adjacent_ends edges) seedID
  delta Next at hfamily
  simp only [mem_adjacent] at hfamily
  have hcomponent : (sweep none (adjacent edges) (ends edges) seedID).getD [] = family := by rw [hsweep, Option.getD_some]
  simp only [build, hseed, Bool.false_eq_true, if_false]
  rw [hcomponent]
  have horder := (order family).2
  refine ⟨family, hnodup, hfamily, ?_, (mergeSort_perm _ _).trans (horder.filter _), mergeSort_perm _ _, fun m hm => ?_⟩
  · refine ((mergeSort_perm _ _).map _).trans ?_
    rw [map_filterMap, ← filterMap_eq_filter]
    refine (horder.filterMap _).trans (.of_eq (filterMap_congr fun id _ => ?_))
    rw [Option.guard]
    cases hid : byID sessions id with
    | none => rfl
    | some s => simp [byID_id hid]
  · obtain ⟨id, hid, hm⟩ := mem_filterMap.mp (mem_mergeSort.mp hm)
    obtain ⟨s, hs, rfl⟩ := Option.map_eq_some_iff.mp hm
    obtain rfl := byID_id hs
    exact ⟨hs, fun hne => graphRelation_spec hne ((hfamily _).mp (horder.mem_iff.mp hid))⟩

end CodexFold.Family
