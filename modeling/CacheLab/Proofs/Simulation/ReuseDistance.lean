import Mathlib.Data.Finset.Card
import Mathlib.Data.List.Dedup
import CacheLab.Proofs.Simulation.ByRecency

/-!
# CacheLab.Proofs.Simulation.ReuseDistance — the hits of `lru` read off the trace

What a cache under `lru` holds is a function of the trace alone: `recent` lists
the distinct keys by latest occurrence, and the cache holds the first `capacity`
of them. So a request hits exactly if its key came before and fewer than
`capacity` distinct other keys came since (`Reused`).

* `recent_append`: a request puts its key to the front of `recent`, whether it
  was there or not. A hit moves the key inside the cache, a miss evicts and
  inserts, and both leave the first `capacity` keys of the new list
  (`take_recent_of_mem`, `take_recent_of_notMem`).
* `mem_take_recent_iff`: the first `capacity` keys are the ones to be reused.
* `lru_replay_reuse` is the result about replays.
-/

namespace CacheLab

open Std.Do

set_option mvcgen.warning false

section Keys

variable {κ : Type} [DecidableEq κ] {keys l : List κ} {key : κ} {capacity : Nat}

/-- The distinct keys by latest occurrence, most recent first. -/
def recent (keys : List κ) : List κ := keys.dedup.reverse

/-- The key occurred, and fewer than `capacity` distinct other keys occurred
since its latest occurrence. -/
def Reused (capacity : Nat) (keys : List κ) (key : κ) : Prop :=
  ∃ before since, keys = before ++ key :: since ∧ key ∉ since ∧ since.toFinset.card < capacity

theorem recent_nodup (keys : List κ) : (recent keys).Nodup :=
  List.nodup_reverse.mpr keys.nodup_dedup

theorem mem_recent : key ∈ recent keys ↔ key ∈ keys := by
  rw [recent, List.mem_reverse, List.mem_dedup]

theorem length_recent (keys : List κ) : (recent keys).length = keys.toFinset.card := by
  rw [recent, List.length_reverse, List.card_toFinset]

theorem dedup_append_singleton (keys : List κ) (key : κ) :
    (keys ++ [key]).dedup = keys.dedup.filter (· ≠ key) ++ [key] := by
  induction keys with
  | nil => rfl
  | cons k keys ih =>
    rw [List.cons_append]
    by_cases hmem : k ∈ keys
    · rw [List.dedup_cons_of_mem hmem, List.dedup_cons_of_mem (List.mem_append_left _ hmem), ih]
    · rw [List.dedup_cons_of_notMem hmem]
      by_cases hk : k = key
      · -- the new occurrence takes the place of the first one
        subst hk
        rw [List.dedup_cons_of_mem (by simp), ih, List.filter_cons_of_neg (by simp)]
      · rw [List.dedup_cons_of_notMem (by simp [hmem, hk]), ih, List.filter_cons_of_pos (by simpa)]
        rfl

/-- A request puts its key to the front. -/
theorem recent_append (keys : List κ) (key : κ) :
    recent (keys ++ [key]) = key :: (recent keys).filter (· ≠ key) := by
  rw [recent, dedup_append_singleton, List.reverse_append, recent, List.filter_reverse]
  rfl

/-- The keys since the latest occurrence of a key stand in front of it. -/
theorem recent_split (before : List κ) {since : List κ} (hsince : key ∉ since) :
    ∃ rest, recent (before ++ key :: since) = recent since ++ key :: rest := by
  obtain ⟨rest, hrest⟩ : (key :: since).dedup <:+ before ∪ (key :: since).dedup :=
    List.suffix_union_right _ _
  refine ⟨rest.reverse, ?_⟩
  rw [recent, List.dedup_append, ← hrest, List.dedup_cons_of_notMem hsince, List.reverse_append,
    List.reverse_cons, List.append_assoc]
  rfl

omit [DecidableEq κ] in
theorem mem_take_append_cons {xs ys : List κ} (hfresh : key ∉ xs) (n : Nat) :
    key ∈ (xs ++ key :: ys).take n ↔ xs.length < n := by
  constructor
  · intro hmem
    by_contra hle
    rw [List.take_append_of_le_length (Nat.not_lt.mp hle)] at hmem
    exact hfresh (List.mem_of_mem_take hmem)
  · intro hlt
    obtain ⟨d, rfl⟩ := Nat.exists_eq_add_of_lt hlt
    rw [Nat.add_assoc, List.take_length_add_append]
    exact List.mem_append_right xs List.mem_cons_self

/-- The first `capacity` keys are the ones that a request would reuse. -/
theorem mem_take_recent_iff : key ∈ (recent keys).take capacity ↔ Reused capacity keys key := by
  have position : ∀ before since, key ∉ since →
      (key ∈ (recent (before ++ key :: since)).take capacity ↔ since.toFinset.card < capacity) := by
    intro before since hsince
    obtain ⟨rest, hrest⟩ := recent_split before hsince
    have hfresh : key ∉ recent since := fun hmem => hsince (mem_recent.mp hmem)
    rw [hrest, mem_take_append_cons hfresh, length_recent]
  constructor
  · intro hmem
    have hkey : key ∈ keys.reverse :=
      List.mem_reverse.mpr (mem_recent.mp (List.mem_of_mem_take hmem))
    -- the latest occurrence is the first one from the end
    obtain ⟨since, before, hkeys, hsince⟩ := List.eq_append_cons_of_mem hkey
    have hsplit : keys = before.reverse ++ key :: since.reverse := by
      rw [← List.reverse_reverse keys, hkeys]
      simp
    have hfresh : key ∉ since.reverse := fun h => hsince (List.mem_reverse.mp h)
    rw [hsplit, position _ _ hfresh] at hmem
    exact ⟨_, _, hsplit, hfresh, hmem⟩
  · rintro ⟨before, since, rfl, hsince, hcard⟩
    exact (position before since hsince).mpr hcard

instance (capacity : Nat) (keys : List κ) (key : κ) : Decidable (Reused capacity keys key) :=
  decidable_of_iff _ mem_take_recent_iff

omit [DecidableEq κ] in
theorem length_take_or_drop (l : List κ) (n : Nat) : (l.take n).length = n ∨ l.drop n = [] := by
  rw [List.length_take, List.drop_eq_nil_iff]
  omega

/-- A hit moves its key to the front of the first `capacity` keys. -/
theorem take_front_of_mem (hnodup : l.Nodup) (hmem : key ∈ l.take capacity) :
    (key :: l.filter (· ≠ key)).take capacity = key :: (l.take capacity).filter (· ≠ key) := by
  have hcut := length_take_or_drop l capacity
  have hle : (l.take capacity).length ≤ capacity := List.length_take_le _ _
  have hdisjoint : key ∉ l.drop capacity := by
    rw [← List.take_append_drop capacity l, List.nodup_append] at hnodup
    exact fun hdrop => hnodup.2.2 key hmem key hdrop rfl
  have hfilter : l.filter (· ≠ key) = (l.take capacity).filter (· ≠ key) ++ l.drop capacity := by
    rw [← Pairs.filter_keys_of_notMem hdisjoint, ← List.filter_append, List.take_append_drop]
  have hlength : ((l.take capacity).filter (· ≠ key)).length + 1 = (l.take capacity).length := by
    obtain ⟨xs, ys, hsplit⟩ := List.append_of_mem hmem
    have hkept := hnodup.sublist (List.take_sublist capacity l)
    rw [hsplit] at hkept ⊢
    rw [Pairs.filter_keys_middle hkept, List.length_append, List.length_append, List.length_cons]
    omega
  rw [hfilter, ← List.cons_append]
  rcases hcut with hfull | hnothing
  · exact List.take_left' (hlength.trans hfull)
  · rw [hnothing, List.append_nil]
    exact List.take_of_length_le (hlength.trans_le hle)

/-- A miss puts its key in front of the first keys, of which the last makes room. -/
theorem take_front_of_notMem (hpos : 0 < capacity) (hmem : key ∉ l.take capacity) :
    (key :: l.filter (· ≠ key)).take capacity =
      key :: if (l.take capacity).length = capacity then (l.take capacity).dropLast
        else l.take capacity := by
  have hcut := length_take_or_drop l capacity
  have hle : (l.take capacity).length ≤ capacity := List.length_take_le _ _
  have hfilter : l.filter (· ≠ key) = l.take capacity ++ (l.drop capacity).filter (· ≠ key) := by
    rw [← Pairs.filter_keys_of_notMem hmem, ← List.filter_append, List.take_append_drop]
  rw [hfilter]
  by_cases hfull : (l.take capacity).length = capacity
  · obtain ⟨n, rfl⟩ := Nat.exists_eq_succ_of_ne_zero hpos.ne'
    rw [if_pos hfull, List.dropLast_eq_take, hfull, List.take_succ_cons,
      List.take_append_of_le_length (by omega), Nat.succ_sub_one]
  · have hnothing := hcut.resolve_left hfull
    rw [if_neg hfull, hnothing, List.filter_nil, List.append_nil]
    exact List.take_of_length_le (Nat.lt_of_le_of_ne hle hfull)

end Keys

/-! ## Replays -/

namespace RecencyList

variable {capacity : Nat} {l : RecencyList String Nat} {keys : List String}

/-- A request to a list of the first `capacity` keys leaves the first `capacity` keys. -/
theorem keys_serve (hpos : 0 < capacity) (hl : l.map (·.1) = (recent keys).take capacity)
    (n : Counts) (request : Request) :
    (serve capacity (n, l) request).2.map (·.1) =
      (recent (keys ++ [request.key])).take capacity := by
  rw [recent_append]
  cases hlookup : l.lookup request.key with
  | some value =>
    have hmem := List.mem_map_of_mem (f := (·.1)) (Pairs.mem_of_lookup_eq_some hlookup)
    rw [hl] at hmem
    rw [serve_of_some hlookup, take_front_of_mem (recent_nodup keys) hmem, List.map_cons,
      keys_without, hl]
  | none =>
    have hmem := Pairs.lookup_eq_none_iff_notMem.mp hlookup
    rw [hl] at hmem
    rw [serve_of_none hlookup, put_of_none hlookup, take_front_of_notMem hpos hmem, ← hl,
      List.length_map, List.map_cons]
    split
    · rw [List.map_dropLast]
    · rfl

theorem keys_replay (hpos : 0 < capacity) (requests : List Request) :
    (replay capacity requests).2.map (·.1) =
      (recent (requests.map (·.key))).take capacity := by
  induction requests using List.reverseRecOn with
  | nil => exact List.take_nil.symm
  | append_singleton requests request ih =>
    rw [replay_append, List.map_append, List.map_singleton]
    exact keys_serve hpos ih _ request

/-- A request finds its key exactly if it reuses it. -/
theorem lookup_replay (hpos : 0 < capacity) (requests : List Request) (key : String) :
    ((replay capacity requests).2.lookup key).isSome ↔
      Reused capacity (requests.map (·.key)) key := by
  rw [← mem_take_recent_iff, ← keys_replay hpos, Option.isSome_iff_ne_none, Ne,
    Pairs.lookup_eq_none_iff_notMem, not_not]

end RecencyList

variable {m : Type → Type} {ps : PostShape} [Monad m] [WPMonad m ps] {meter : Meter m}

/-- After a replay against a cache under `lru` the tracker lists the distinct
keys of the trace by latest occurrence, cut to the capacity, and one more request
is a hit exactly if it reuses its key. -/
theorem lru_replay_reuse {capacity : Nat} (hmeter : meter.Faithful) (hpos : 0 < capacity)
    (requests : List Request) :
    ⦃⌜True⌝⦄ replaySequential meter requests (.new .lru capacity hpos)
    ⦃⇓ (t, s) => ⌜(∃ c, s = .cache c ∧
        c.tracker.keys = (recent (requests.map (·.key))).take capacity) ∧
      ∀ request, ⦃⌜True⌝⦄ t.replay meter request s
        ⦃⇓ (t', _) => ⌜(t'.hits, t'.misses) =
          if Reused capacity (requests.map (·.key)) request.key then (t.hits + 1, t.misses)
          else (t.hits, t.misses + 1)⌝⦄⌝⦄ := by
  have hreplay := replaySequential_byRecency hmeter .lru rfl hpos
  mvcgen [hreplay]
  mframe
  rename_i r hfollows
  rcases r with ⟨t, s⟩
  dsimp only at hfollows ⊢
  mpure_intro
  constructor
  · obtain ⟨c, rfl, hkeys⟩ := hfollows.holds.keys_eq
    exact ⟨c, rfl, hkeys.trans (RecencyList.keys_replay hpos requests)⟩
  · intro request
    have hnext := hfollows.replay_spec hmeter hpos request
    mvcgen [hnext]
    mframe
    rename_i r hfollows'
    mpure_intro
    have hlookup := RecencyList.lookup_replay hpos requests request.key
    have hcount := RecencyList.hits_misses_serve capacity (RecencyList.replay capacity requests)
      request
    rw [if_congr hlookup rfl rfl, ← hfollows'.counts_eq, ← hfollows.counts_eq] at hcount
    exact hcount

/-- Two entries, and the trace a b b c. Only c came since the latest b, so another
request for b is a hit; b and c came since a, so a request for a is a miss. -/
theorem lru_replay_reuse_two_entries :
    let requests : List Request :=
      [⟨0, "a", 10, 0⟩, ⟨1, "b", 20, 0⟩, ⟨2, "b", 20, 0⟩, ⟨3, "c", 30, 0⟩]
    let r := (replaySequential (Meter.still : Meter Id) requests (.new .lru 2 (by decide))).run
    let b := (r.1.replay (Meter.still : Meter Id) ⟨4, "b", 20, 0⟩ r.2).run
    let a := (r.1.replay (Meter.still : Meter Id) ⟨4, "a", 10, 0⟩ r.2).run
    ((Meter.still : Meter Id).Faithful ∧ 0 < 2) ∧
      (∃ c, r.2 = .cache c ∧ c.tracker.keys = ["c", "b"]) ∧
      (b.1.hits, b.1.misses) = (r.1.hits + 1, r.1.misses) ∧
      (a.1.hits, a.1.misses) = (r.1.hits, r.1.misses + 1) := by
  intro requests r b a
  have hmeter : (Meter.still : Meter Id).Faithful := .still
  have hpos : 0 < 2 := by decide
  rcases lru_replay_reuse hmeter hpos requests trivial with ⟨hkeys, hnext⟩
  refine ⟨⟨hmeter, hpos⟩, hkeys, ?_, ?_⟩
  · have hreused : Reused 2 (requests.map (·.key)) "b" := by decide
    exact (hnext ⟨4, "b", 20, 0⟩ trivial).trans (if_pos hreused)
  · have hforgotten : ¬ Reused 2 (requests.map (·.key)) "a" := by decide
    exact (hnext ⟨4, "a", 10, 0⟩ trivial).trans (if_neg hforgotten)

end CacheLab
