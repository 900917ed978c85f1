import Mathlib.Data.List.Basic
import Mathlib.Tactic

/-!
# Bounded maps that forget the oldest key

A `Fifo` is a map with at most `cap` keys, as the list of its entries in the order in which the keys
were last set. Setting a key that is there moves it to the end. Setting another key of a full map
drops the first entry.
-/

namespace VirePortal.Collections

variable {K V V' : Type} [DecidableEq K] {cap : ℕ} {k : K} {v : V} {l : List (K × V)}

/-- What setting the key `k` leaves of the other entries. -/
def room (cap : ℕ) (k : K) (l : List (K × V)) : List (K × V) :=
  if k ∈ l.map Prod.fst then l.filter fun a => a.1 ≠ k
  else if cap ≤ l.length then l.tail
  else l

/-- Making room adds nothing. -/
theorem room_sublist : (room cap k l).Sublist l := by
  unfold room
  split_ifs
  · exact List.filter_sublist
  · exact List.tail_sublist l
  · exact List.Sublist.refl l

/-- The key itself is not among the others. -/
theorem fst_ne_of_mem_room {a : K × V} (ha : a ∈ room cap k l) : a.1 ≠ k := by
  by_cases hk : k ∈ l.map Prod.fst
  · rw [room, if_pos hk, List.mem_filter] at ha
    exact of_decide_eq_true ha.2
  · rintro rfl
    exact hk (List.mem_map_of_mem (room_sublist.subset ha))

/-- There is room for one more entry. -/
theorem length_room_lt (hcap : 0 < cap) (hl : l.length ≤ cap) : (room cap k l).length < cap := by
  unfold room
  split_ifs with hk hfull
  · obtain ⟨a, ha, hak⟩ := List.mem_map.1 hk
    have hlt : (l.filter fun a => a.1 ≠ k).length < l.length :=
      List.length_filter_lt_length_iff_exists.2 ⟨a, ha, by simp [hak]⟩
    omega
  · rw [List.length_tail]
    omega
  · omega

/-- The values have no part in which entries stay. -/
theorem map_room (f : V → V') (l : List (K × V)) :
    (room cap k l).map (Prod.map id f) = room cap k (l.map (Prod.map id f)) := by
  have hkeys : (l.map (Prod.map id f)).map Prod.fst = l.map Prod.fst := by
    rw [List.map_map]
    rfl
  unfold room
  rw [hkeys, List.length_map]
  split_ifs
  · rw [List.filter_map]
    rfl
  · rw [List.map_tail]
  · rfl

/-- A map with at most `cap` keys, the ones that were set longest ago first. -/
@[ext]
structure Fifo (K V : Type) (cap : ℕ) where
  entries : List (K × V)
  nodup : (entries.map Prod.fst).Nodup
  bounded : entries.length ≤ cap
  positive : 0 < cap

namespace Fifo

/-- The map without keys. -/
def empty (hcap : 0 < cap) : Fifo K V cap := ⟨[], List.nodup_nil, Nat.zero_le cap, hcap⟩

/-- The keys stay distinct. -/
theorem nodup_room_append {q : Fifo K V cap} (k : K) (v : V) :
    ((room cap k q.entries ++ [(k, v)]).map Prod.fst).Nodup := by
  rw [List.map_append, List.nodup_append']
  refine ⟨q.nodup.sublist (room_sublist.map Prod.fst), List.nodup_singleton k, fun x hx hk => ?_⟩
  obtain ⟨a, ha, rfl⟩ := List.mem_map.1 hx
  exact fst_ne_of_mem_room ha (List.mem_singleton.1 hk)

/-- The bound is kept. -/
theorem length_room_append_le {q : Fifo K V cap} (k : K) (v : V) :
    (room cap k q.entries ++ [(k, v)]).length ≤ cap := by
  rw [List.length_append]
  exact length_room_lt q.positive q.bounded

/-- A key is set. -/
def set (q : Fifo K V cap) (k : K) (v : V) : Fifo K V cap where
  entries := room cap k q.entries ++ [(k, v)]
  nodup := nodup_room_append k v
  bounded := length_room_append_le k v
  positive := q.positive

/-- The entries that satisfy `p` stay. -/
def filter (q : Fifo K V cap) (p : K × V → Bool) : Fifo K V cap where
  entries := q.entries.filter p
  nodup := q.nodup.sublist (List.filter_sublist.map Prod.fst)
  bounded := (List.length_filter_le p q.entries).trans q.bounded
  positive := q.positive

end Fifo

end VirePortal.Collections
