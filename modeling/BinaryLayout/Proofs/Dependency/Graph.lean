import Mathlib.Data.List.Basic
import BinaryLayout.Dependency.Graph

/-!
# What a graph shows

A graph is built by adding nodes and edges.  `Graph.Shows` says which nodes it then has and which
of them lead where, without the table behind it.

Main statements: a node or an edge that is added is shown beside what was shown before.
-/

namespace BinaryLayout.Dependency.Graph

/-- A graph has the nodes of some sort, and those lead to each other in some way. -/
structure Shows (g : Graph) (isNode : NodeName → Prop) (leads : NodeName → NodeName → Prop) :
    Prop where
  once : g.nodes.Nodup
  listed : ∀ n, n ∈ g.nodes ↔ isNode n
  contained : ∀ n, g.contains n = true ↔ isNode n
  next : ∀ n m, m ∈ g.next n ↔ leads n m

section Shows

variable {g : Graph} {isNode : NodeName → Prop} {leads : NodeName → NodeName → Prop}

theorem Shows.empty : Shows {} (fun _ => False) fun _ _ => False :=
  ⟨.nil, by simp, by simp [contains], by simp [Graph.next]⟩

theorem Shows.congr {isNode' : NodeName → Prop} {leads' : NodeName → NodeName → Prop}
    (shows : Shows g isNode leads) (nodes : ∀ n, isNode n ↔ isNode' n)
    (edges : ∀ n m, leads n m ↔ leads' n m) : Shows g isNode' leads' :=
  ⟨shows.once, fun n => (shows.listed n).trans (nodes n),
    fun n => (shows.contained n).trans (nodes n), fun n m => (shows.next n m).trans (edges n m)⟩

theorem Shows.addNode (shows : Shows g isNode leads) (new : NodeName) :
    Shows (g.addNode new) (fun n => isNode n ∨ n = new) leads := by
  rw [Graph.addNode]
  split
  · rename_i known
    refine shows.congr (fun n => ⟨.inl, ?_⟩) fun _ _ => Iff.rfl
    rintro (old | rfl)
    · exact old
    · exact (shows.contained _).1 known
  · rename_i unknown
    have leadsNowhere : g.next new = [] := by
      rw [Graph.next, Std.HashMap.getD_eq_fallback]
      simpa [contains] using unknown
    refine ⟨?_, fun n => ?_, fun n => ?_, fun n m => ?_⟩
    · refine List.nodup_append.2 ⟨shows.once, by simp, ?_⟩
      rintro n old _ isNew rfl
      rw [List.mem_singleton.1 isNew, shows.listed] at old
      exact unknown ((shows.contained new).2 old)
    · rw [List.mem_append, List.mem_singleton, shows.listed]
    · rw [← shows.contained, contains, contains, Std.HashMap.contains_insert, Bool.or_eq_true,
        beq_iff_eq, or_comm, @eq_comm _ new]
    · rw [← shows.next, Graph.next, Std.HashMap.getD_insert]
      split
      · rename_i same
        rw [← beq_iff_eq.1 same, leadsNowhere]
      · rfl

theorem Shows.addEdge (shows : Shows g isNode leads) {source : NodeName} (isSource : isNode source)
    (target : NodeName) :
    Shows (g.addEdge source target) isNode
      fun n m => leads n m ∨ (n = source ∧ m = target) := by
  have known : g.addNode source = g := if_pos ((shows.contained source).2 isSource)
  rw [Graph.addEdge, known]
  refine ⟨shows.once, shows.listed, fun n => ?_, fun n m => ?_⟩
  · rw [← shows.contained, contains, contains, Std.HashMap.contains_insert, Bool.or_eq_true,
      beq_iff_eq, or_iff_right_iff_imp]
    rintro rfl
    exact (shows.contained source).2 isSource
  · rw [← shows.next, Graph.next, Std.HashMap.getD_insert]
    split
    · rename_i same
      rw [← beq_iff_eq.1 same, List.mem_append, List.mem_singleton, eq_self, true_and]
    · rename_i other
      rw [or_iff_left fun equal => other (beq_iff_eq.2 equal.1.symm)]
      rfl

end Shows

end BinaryLayout.Dependency.Graph
