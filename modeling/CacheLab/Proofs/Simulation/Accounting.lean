import CacheLab.Proofs.Cache.Stock
import CacheLab.Proofs.Simulation.ByRecency

/-!
# CacheLab.Proofs.Simulation.Accounting — the account of a replay in sequence

A replay looks every request up and inserts the misses. What it counts are the answers, and
the four algorithms answer in their own ways. But each of them holds a bounded stock of what
was inserted, and that is enough to settle the account, whatever is evicted.

* `Subject.held` are the entries of a subject. `Subject.Sound.get` and `Subject.Sound.put` say
  what a lookup and an insertion do to them, for the caches and for the reference algorithm.
* `Account` is the invariant of the replay. A hit moves nothing (`Account.hit`); a miss brings
  its key into the stock, and what it displaces was evicted because the subject was full
  (`Account.miss`).
* `replaySequential_account` reads the account off at the end.
-/

namespace CacheLab

open Std.Do

set_option mvcgen.warning false

/-! ## Lists by recency -/

namespace RecencyList

variable {κ ν : Type} [DecidableEq κ] {l : RecencyList κ ν} {capacity : Nat} {key : κ}

/-- A lookup moves pairs only. -/
theorem Fits.modify_perm (hl : l.Fits capacity) (key : κ) : (l.modify key id).2.Perm l := by
  cases hlookup : l.lookup key with
  | none => rw [modify_of_none hlookup]
  | some value =>
    rw [modify_of_some hlookup]
    exact hl.without_perm hlookup

/-- A new pair displaces the last one exactly if the list is full. -/
theorem put_flow (hpos : 0 < capacity) (hnone : l.lookup key = none) (value : ν) :
    ((l.put capacity key value).1.isSome = true ↔ l.length = capacity) ∧
      (l ++ [(key, value)]).Perm
        ((l.put capacity key value).1.toList ++ (l.put capacity key value).2) := by
  rw [put_of_none hnone]
  by_cases hfull : l.length = capacity
  · rw [if_pos hfull, if_pos hfull]
    rcases List.eq_nil_or_concat' l with rfl | ⟨front, last, rfl⟩
    · rw [List.length_nil] at hfull
      omega
    · rw [List.getLast?_concat, List.dropLast_concat]
      refine ⟨iff_of_true rfl hfull, ?_⟩
      have hswap : (front ++ [last]).Perm (last :: front) := List.perm_append_singleton last front
      exact (List.perm_append_singleton _ _).trans ((hswap.cons _).trans (List.Perm.swap _ _ _))
  · rw [if_neg hfull, if_neg hfull]
    refine ⟨iff_of_false Bool.false_ne_true hfull, ?_⟩
    exact List.perm_append_singleton _ _

end RecencyList

/-! ## What a subject holds -/

namespace Subject

/-- The value under `key`. -/
def peek? (s : Subject) (key : String) : Option Nat :=
  match s with
  | cache c => c.peek? key
  | shared s => s.inner.peek? key
  | baseline b => b.pairs.lookup key

/-- The entries that a subject holds. -/
def held : Subject → Multiset (String × Nat)
  | cache c => c.held
  | shared s => s.inner.held
  | baseline b => b.pairs

/-- The keys that a subject holds. -/
def heldKeys (s : Subject) : Multiset String := s.held.map (·.1)

/-- The subject is one of `capacity` entries that a replay can reach. -/
inductive Sound (capacity : Nat) : Subject → Prop where
  | cache {c : Cache String Nat} {config : Config} (hcapacity : config.capacity = capacity) :
    c.Sound config → Sound capacity (.cache c)
  | baseline {l : RecencyList String Nat} :
    l.Fits capacity → Sound capacity (.baseline ⟨capacity, l⟩)

variable {s : Subject} {capacity : Nat} {key : String} {value : Nat}

theorem get_fst (s : Subject) (key : String) : (s.get key).1 = (s.peek? key).isSome := by
  cases s with
  | cache c => exact congrArg Option.isSome (c.get_fst key)
  | shared s => exact congrArg Option.isSome (s.inner.get_fst key)
  | baseline b =>
    show (b.get key).1.isSome = (b.pairs.lookup key).isSome
    unfold Baseline.get
    cases b.pairs.lookup key <;> rfl

theorem card_held (s : Subject) : s.held.card = s.size := by
  cases s with
  | cache c => exact c.card_held
  | shared s => exact s.inner.card_held
  | baseline b => exact Multiset.coe_card b.pairs

theorem card_heldKeys (s : Subject) : s.heldKeys.card = s.size := by
  rw [heldKeys, Multiset.card_map, card_held]

namespace Sound

theorem new (algorithm : Algorithm) (hpos : 0 < capacity) :
    Sound capacity (.new algorithm capacity hpos) := by
  unfold Subject.new
  cases algorithm.policy? with
  | some policy => exact .cache rfl (Cache.Sound.new _)
  | none => exact .baseline ⟨List.nodup_nil, Nat.zero_le capacity⟩

theorem mem_held (hs : s.Sound capacity) : (key, value) ∈ s.held ↔ s.peek? key = some value := by
  cases hs with
  | cache hcapacity hc => exact Store.mem_pairs
  | baseline hl => exact (Pairs.lookup_eq_some_iff_mem hl.nodup).symm

theorem mem_heldKeys (hs : s.Sound capacity) :
    key ∈ s.heldKeys ↔ (s.peek? key).isSome = true :=
  mem_keys_iff (fun _ _ => hs.mem_held) key

theorem notMem_heldKeys (hs : s.Sound capacity) : key ∉ s.heldKeys ↔ s.peek? key = none := by
  rw [hs.mem_heldKeys, Bool.not_eq_true, Option.isSome_eq_false_iff, Option.isNone_iff_eq_none]

/-- A lookup leaves the entries as they are. -/
theorem get (hs : s.Sound capacity) (key : String) :
    (s.get key).2.Sound capacity ∧ (s.get key).2.held = s.held := by
  cases hs with
  | cache hcapacity hc => exact ⟨.cache hcapacity (hc.perform (.get key)), Cache.held_get _ key⟩
  | @baseline l hl =>
    have hget : (Subject.get (.baseline ⟨capacity, l⟩) key).2 =
        .baseline ⟨capacity, (l.modify key id).2⟩ := by
      dsimp only [Subject.get]
      rw [Baseline.get_eq]
    rw [hget]
    exact ⟨.baseline (hl.modify key id), Multiset.coe_eq_coe.mpr (hl.modify_perm key)⟩

theorem heldKeys_get (hs : s.Sound capacity) (key : String) :
    (s.get key).2.heldKeys = s.heldKeys := by
  rw [heldKeys, (hs.get key).2]
  rfl

theorem size_get (hs : s.Sound capacity) (key : String) : (s.get key).2.size = s.size := by
  rw [← card_held, (hs.get key).2, card_held]

/-- An insertion of an absent key adds an entry, and evicts one exactly if there was no room. -/
theorem put (hs : s.Sound capacity) (hpos : 0 < capacity) (hnone : s.peek? key = none)
    (value : Nat) :
    (s.put key value).2.Sound capacity ∧
      ∃ out : Option (String × Nat), (s.put key value).1 = out.isSome ∧
        (out.isSome = true ↔ s.size = capacity) ∧
        s.held + {(key, value)} = ↑out.toList + (s.put key value).2.held := by
  cases hs with
  | @cache c config hcapacity hc =>
    subst hcapacity
    exact ⟨.cache rfl (hc.perform (.put key value)), (c.put key value).1, rfl,
      hc.put_isSome hnone value, c.held_put key value⟩
  | @baseline l hl =>
    have hput : Subject.put (.baseline ⟨capacity, l⟩) key value =
        ((l.put capacity key value).1.isSome,
          .baseline ⟨capacity, (l.put capacity key value).2⟩) := by
      dsimp only [Subject.put]
      rw [Baseline.push_eq hl]
    rw [hput]
    rcases RecencyList.put_flow hpos hnone value with ⟨hfull, hflow⟩
    exact ⟨.baseline (hl.put hpos key value), (l.put capacity key value).1, rfl, hfull,
      Multiset.coe_eq_coe.mpr hflow⟩

end Sound

end Subject

/-! ## Keys of requests -/

/-- The keys that are requested. -/
def keysOf (requests : Multiset Request) : Finset String := (requests.map (·.key)).toFinset

theorem keysOf_add (requests others : Multiset Request) :
    keysOf (requests + others) = keysOf requests ∪ keysOf others := by
  rw [keysOf, Multiset.map_add, Multiset.toFinset_add]
  rfl

theorem keysOf_mono {requests others : Multiset Request} (hle : requests ≤ others) :
    keysOf requests ⊆ keysOf others := by
  rcases Multiset.le_iff_exists_add.mp hle with ⟨rest, rfl⟩
  rw [keysOf_add]
  exact Finset.subset_union_left

theorem keysOf_append (requests : List Request) (request : Request) :
    keysOf ↑(requests ++ [request]) = keysOf requests ∪ {request.key} := by
  rw [← Multiset.coe_add, keysOf_add]
  rfl

/-! ## The account -/

namespace Subject

/-- The requests of a trace that find no entry when it is replayed in sequence. -/
def missed (s : Subject) : List Request → List Request
  | [] => []
  | request :: requests =>
    if (s.get request.key).1 then (s.get request.key).2.missed requests
    else request ::
      ((s.get request.key).2.put request.key request.stored).2.missed requests

end Subject

/-- The latest of the requests for `key`. -/
def latestFor (requests : List Request) (key : String) : Option Request :=
  (requests.filter (·.key = key)).getLast?

theorem latestFor_append (requests : List Request) (request : Request) (key : String) :
    latestFor (requests ++ [request]) key =
      if request.key = key then some request else latestFor requests key := by
  rw [latestFor, List.filter_append]
  by_cases hkey : request.key = key
  · rw [if_pos hkey, List.filter_cons_of_pos (by simpa using hkey), List.filter_nil,
      List.getLast?_concat]
  · rw [if_neg hkey, List.filter_cons_of_neg (by simpa using hkey), List.filter_nil,
      List.append_nil, latestFor]

/-- The account of the requests `past`, of which `missed` were misses. -/
structure Account (capacity : Nat) (past missed : List Request) (n : Counts) (s : Subject) :
    Prop where
  sound : s.Sound capacity
  stock : Stock capacity (keysOf missed) s.heldKeys
  /-- Each key that was requested was once missed. -/
  keys_eq : keysOf past = keysOf missed
  answered : n.hits + n.misses = past.length
  lookups : n.lookups = past.length
  misses : n.misses = missed.length
  insertions : n.insertions = missed.length
  /-- What was missed is there or was evicted. -/
  flow : n.evictions + s.size = missed.length
  /-- As long as there is room for all keys, nothing was evicted. -/
  room : (keysOf missed).card ≤ capacity → n.evictions = 0
  /-- A key has the value of its last miss. -/
  value : ∀ key x, (key, x) ∈ s.held → (latestFor missed key).map Request.stored = some x

namespace Account

variable {capacity : Nat} {past missed : List Request} {n : Counts} {s : Subject}

theorem new (algorithm : Algorithm) (hpos : 0 < capacity) :
    Account capacity [] [] {} (.new algorithm capacity hpos) := by
  have hheld : (Subject.new algorithm capacity hpos).held = 0 := by
    unfold Subject.new
    cases algorithm.policy? with
    | some policy => exact Cache.held_new _
    | none => rfl
  have hempty : (Subject.new algorithm capacity hpos).size = 0 := by
    rw [← Subject.card_held, hheld, Multiset.card_zero]
  have hstock : Stock capacity (keysOf 0) (Subject.new algorithm capacity hpos).heldKeys := by
    rw [Subject.heldKeys, hheld]
    exact .empty capacity
  have hvalue : ∀ key x, (key, x) ∉ (Subject.new algorithm capacity hpos).held := by
    intro key x
    rw [hheld]
    exact Multiset.notMem_zero _
  exact
    { sound := .new algorithm hpos
      stock := hstock
      keys_eq := rfl
      answered := rfl
      lookups := rfl
      misses := rfl
      insertions := rfl
      flow := (Nat.zero_add _).trans hempty
      room := fun _ => rfl
      value := fun key x hmem => absurd hmem (hvalue key x) }

/-- A request that is found changes no entry. -/
theorem hit (ha : Account capacity past missed n s) {request : Request}
    (hfound : (s.get request.key).1 = true) :
    Account capacity (past ++ [request]) missed (n.noteLookup true) (s.get request.key).2 := by
  rcases ha.sound.get request.key with ⟨hsound, hheld⟩
  have hmem : request.key ∈ keysOf missed := by
    rw [Subject.get_fst] at hfound
    exact ha.stock.mem_known _ (ha.sound.mem_heldKeys.mpr hfound)
  have hlength : (past ++ [request]).length = past.length + 1 := List.length_append
  have hanswered := ha.answered
  have hlookups := ha.lookups
  constructor
  case sound => exact hsound
  case stock =>
    rw [ha.sound.heldKeys_get]
    exact ha.stock
  case keys_eq =>
    rw [keysOf_append, ha.keys_eq, Finset.union_eq_left, Finset.singleton_subset_iff]
    exact hmem
  case answered =>
    show n.hits + 1 + n.misses = _
    omega
  case lookups =>
    show n.lookups + 1 = _
    omega
  case misses => exact ha.misses
  case insertions => exact ha.insertions
  case flow =>
    rw [ha.sound.size_get]
    exact ha.flow
  case room => exact ha.room
  case value =>
    rw [hheld]
    exact ha.value

/-- A request that is not found is inserted, and if there was no room an entry is evicted. -/
theorem miss (ha : Account capacity past missed n s) (hpos : 0 < capacity) {request : Request}
    (hmissed : (s.get request.key).1 = false) :
    let r := (s.get request.key).2.put request.key request.stored
    Account capacity (past ++ [request]) (missed ++ [request])
      ((n.noteLookup false).noteInsertion r.1) r.2 := by
  intro r
  have hkeys := ha.sound.heldKeys_get request.key
  rcases ha.sound.get request.key with ⟨hsound, hheld⟩
  have hfresh : request.key ∉ s.heldKeys := by
    rw [ha.sound.mem_heldKeys, ← Subject.get_fst, hmissed]
    exact Bool.false_ne_true
  have hnone : (s.get request.key).2.peek? request.key = none := by
    rwa [← hsound.notMem_heldKeys, hkeys]
  rcases hsound.put hpos hnone request.stored with ⟨hsound', out, hout, hfull, hflow⟩
  rw [hheld] at hflow
  rw [ha.sound.size_get] at hfull
  have hevicted : (out.map (·.1)).isSome = true ↔ s.heldKeys.card = capacity := by
    rw [Option.isSome_map, Subject.card_heldKeys]
    exact hfull
  have hsize : s.size + 1 = out.isSome.toNat + r.2.size := by
    have hcard := congrArg Multiset.card hflow
    rwa [Multiset.card_add, Multiset.card_singleton, Multiset.card_add, Subject.card_held,
      Subject.card_held, Cache.card_toList] at hcard
  have hevictions : ((n.noteLookup false).noteInsertion r.1).evictions =
      n.evictions + out.isSome.toNat := by
    show (if r.1 = true then n.evictions + 1 else n.evictions) = _
    rw [hout]
    cases out.isSome <;> rfl
  have hlength : ∀ l : List Request, (l ++ [request]).length = l.length + 1 := fun l =>
    List.length_append
  have hanswered := ha.answered
  have hlookups := ha.lookups
  have hmisses := ha.misses
  have hinsertions := ha.insertions
  have hbalance := ha.flow
  constructor
  case sound => exact hsound'
  case stock =>
    rw [keysOf_append]
    exact ha.stock.insert hfresh hevicted (keys_flow hflow)
  case keys_eq => rw [keysOf_append, keysOf_append, ha.keys_eq]
  case answered =>
    show n.hits + (n.misses + 1) = _
    rw [hlength]
    omega
  case lookups =>
    show n.lookups + 1 = _
    rw [hlength]
    omega
  case misses =>
    show n.misses + 1 = _
    rw [hlength]
    omega
  case insertions =>
    show n.insertions + 1 = _
    rw [hlength]
    omega
  case flow =>
    rw [hevictions, hlength]
    omega
  case room =>
    intro hroom
    rw [keysOf_append] at hroom
    have hle : (keysOf missed).card ≤ (keysOf missed ∪ {request.key}).card :=
      Finset.card_le_card Finset.subset_union_left
    have hnothing : out.isSome = false := by
      rw [← Bool.not_eq_true, hfull, ← Subject.card_heldKeys]
      intro hcard
      have hlt := ha.stock.lt_card_of_full hfresh hcard
      omega
    rw [hevictions, hnothing, ha.room (by omega)]
    rfl
  case value =>
    intro key x hmem
    have hbefore : (key, x) ∈ s.held + {(request.key, request.stored)} := by
      rw [hflow]
      exact Multiset.mem_add.mpr (Or.inr hmem)
    rw [latestFor_append]
    rcases Multiset.mem_add.mp hbefore with hold | hnew
    · -- an entry that was there has another key
      have hne : ¬ request.key = key := by
        rintro rfl
        exact hfresh (Multiset.mem_map_of_mem (·.1) hold)
      rw [if_neg hne]
      exact ha.value key x hold
    · obtain ⟨rfl, rfl⟩ := Prod.mk.inj (Multiset.mem_singleton.mp hnew)
      rw [if_pos rfl]
      rfl

/-- The account is kept over a trace. -/
theorem serveAll (ha : Account capacity past missed n s) (hpos : 0 < capacity)
    (requests : List Request) :
    Account capacity (past ++ requests) (missed ++ s.missed requests)
      (requests.foldl Subject.serve (n, s)).1 (requests.foldl Subject.serve (n, s)).2 := by
  induction requests generalizing past missed n s with
  | nil =>
    rw [List.append_nil, Subject.missed, List.append_nil]
    exact ha
  | cons request requests ih =>
    rw [List.append_cons past, Subject.missed, List.foldl_cons]
    cases hget : (s.get request.key).1 with
    | true =>
      rw [if_pos rfl, Subject.serve_of_hit (Prod.ext hget rfl)]
      exact ih (ha.hit hget)
    | false =>
      have hmiss := ha.miss hpos hget
      rcases hput : (s.get request.key).2.put request.key request.stored with ⟨displaced, s'⟩
      rw [hput] at hmiss
      rw [if_neg Bool.false_ne_true, List.append_cons missed,
        Subject.serve_of_miss (Prod.ext hget rfl) hput]
      exact ih hmiss

end Account

/-! ## Replays in sequence -/

variable {m : Type → Type} {ps : PostShape} [Monad m] [WPMonad m ps] {meter : Meter m}

/-- After a replay in sequence, whatever the algorithm: each request was a hit or a miss and
was looked up once, each miss was inserted once, and it is there or was evicted; there is an
entry for each key that was requested, or as many as the capacity allows; and what is stored
under a key is the size, cut at the greatest number of 32 bits, of the request that last missed
it. So there are at least as many misses as keys, and with room for all keys there are exactly
as many, and no eviction. -/
theorem replaySequential_account {capacity : Nat} (hmeter : meter.Faithful)
    (algorithm : Algorithm) (hpos : 0 < capacity) (requests : List Request) :
    ⦃⌜True⌝⦄ replaySequential meter requests (.new algorithm capacity hpos)
    ⦃⇓ (t, s) => ⌜
      let missed := (Subject.new algorithm capacity hpos).missed requests
      let keys := (requests.map (·.key)).toFinset.card
      t.hits + t.misses = requests.length ∧ t.misses = missed.length ∧
        t.gets.count = requests.length ∧ t.puts.count = t.misses ∧
        s.size = min capacity keys ∧ t.evictions = t.misses - s.size ∧ s.size ≤ t.misses ∧
        (∀ key value, s.peek? key = some value →
          (latestFor missed key).map (fun request => min request.size (2 ^ 32 - 1)) =
            some value) ∧
        keys ≤ t.misses ∧ (keys ≤ capacity → t.evictions = 0 ∧ t.misses = keys)⌝⦄ := by
  have hreplay := replaySequential_spec hmeter
  mvcgen [hreplay]
  mframe
  rename_i r hfold
  mpure_intro
  have ha := (Account.new algorithm hpos).serveAll hpos requests
  rw [← hfold, List.nil_append, List.nil_append] at ha
  have hmisses : r.1.misses = _ := ha.misses
  have hevictions : r.1.evictions + r.2.size = _ := ha.flow
  have hinsertions : r.1.puts.count = _ := ha.insertions
  have hsize := ha.stock.card_eq
  rw [Subject.card_heldKeys, ← ha.keys_eq] at hsize
  have hkeys : (keysOf requests).card ≤ r.1.misses := by
    rw [hmisses, ha.keys_eq, keysOf, ← List.length_map (·.key)]
    exact List.toFinset_card_le _
  have hroom := ha.room
  rw [← ha.keys_eq] at hroom
  refine ⟨ha.answered, hmisses, ha.lookups, ?_, hsize, ?_, ?_, ?_, hkeys, ?_⟩
  · omega
  · omega
  · omega
  · intro key value hpeek
    exact ha.value key value (ha.sound.mem_held.mpr hpeek)
  · intro hfits
    have hnone : r.1.evictions = 0 := hroom hfits
    have hall : r.2.size = (keysOf requests).card := hsize.trans (Nat.min_eq_right hfits)
    refine ⟨hnone, ?_⟩
    show r.1.misses = (keysOf requests).card
    omega

/-- The reference algorithm with room for two entries: the second request for a is a hit, c
evicts b, and b evicts a. The size of c is cut. -/
theorem replaySequential_account_two_entries :
    let requests : List Request :=
      [⟨0, "a", 10, 0⟩, ⟨1, "b", 20, 0⟩, ⟨2, "a", 11, 0⟩, ⟨3, "c", 5000000000, 0⟩, ⟨4, "b", 21, 0⟩]
    let r := (replaySequential (Meter.still : Meter Id) requests
      (.new .referenceLru 2 Nat.two_pos)).run
    ((Meter.still : Meter Id).Faithful ∧ 0 < 2) ∧
      r.1.hits = 1 ∧ r.1.misses = 4 ∧ r.1.gets.count = 5 ∧ r.1.puts.count = 4 ∧ r.2.size = 2 ∧
      r.1.evictions = 2 ∧ ∀ value, r.2.peek? "c" = some value → value = 4294967295 := by
  intro requests r
  have hmeter : (Meter.still : Meter Id).Faithful := .still
  rcases replaySequential_account hmeter .referenceLru Nat.two_pos requests trivial with
    ⟨hanswered, hmisses, hgets, hputs, hsize, hevictions, -, hvalues, -, -⟩
  have hmissed : (Subject.new .referenceLru 2 Nat.two_pos).missed requests =
      [⟨0, "a", 10, 0⟩, ⟨1, "b", 20, 0⟩, ⟨3, "c", 5000000000, 0⟩, ⟨4, "b", 21, 0⟩] := by
    decide
  have hkeys : (requests.map (·.key)).toFinset.card = 3 := by decide
  rw [hmissed] at hmisses hvalues
  rw [hkeys] at hsize
  have hmisses : r.1.misses = 4 := hmisses
  have hanswered : r.1.hits + r.1.misses = 5 := hanswered
  have hputs : r.1.puts.count = r.1.misses := hputs
  have hsize : r.2.size = 2 := hsize
  have hevictions : r.1.evictions = r.1.misses - r.2.size := hevictions
  refine ⟨⟨hmeter, Nat.two_pos⟩, by omega, hmisses, hgets, by omega, hsize, by omega, ?_⟩
  intro value hpeek
  have hvalue : some 4294967295 = some value := hvalues "c" value hpeek
  exact (Option.some.inj hvalue).symm

end CacheLab
