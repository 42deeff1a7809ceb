import CacheLab.Proofs.Cache.Alike
import CacheLab.Proofs.Cache.ArrivalQueue

/-!
# CacheLab.Proofs.Cache.Hitless — without hits the policies coincide

The policies differ in what an access to a present key does. As long as no call finds its key,
there is no such access: the keys leave in the order in which they came, whether the tracker takes
them from the back of a list, from the front of a queue or from the one bucket that it has.

* `Call.Misses` says that a call finds no key that it would access, and `Cache.Hitless` that no
  call of a list does.
* `View.Sound.perform_withPolicy` is the step lemma and `View.Sound.run_withPolicy` the run lemma:
  calls without hits come to the same under each policy. The lists differ, but not the views.
* `hitless_run_eq`: so caches that were made under different policies answer what the plain queue
  answers and hold the same, and the same entries will leave next.
-/

namespace CacheLab

/-- The call finds no key that it would access. The access counts are not asked for, as there are
none under the other policies. -/
def Call.Misses {κ ν : Type} (value : κ → Option ν) : Call κ ν → Prop
  | .put key _ | .get key | .modify key _ => value key = none
  | .frequency _ => False
  | .remove _ | .erase _ | .pop | .clear | .contains _ | .peek _ | .victim => True

/-- The configuration of the same capacity under another policy. -/
def Config.withPolicy (config : Config) (policy : Policy) : Config := { config with policy }

/-! ## Views -/

namespace View

variable {κ ν : Type} [DecidableEq κ] {config : Config} {v : View κ ν} {call : Call κ ν}
  {calls : List (Call κ ν)}

/-- No call of the list finds a key that it would access. -/
def Hitless (config : Config) (v : View κ ν) : List (Call κ ν) → Prop
  | [] => True
  | call :: calls => call.Misses v.value ∧ (v.perform config call).2.Hitless config calls

theorem Hitless.of_append {later : List (Call κ ν)} (hcalls : v.Hitless config (calls ++ later)) :
    v.Hitless config calls := by
  induction calls generalizing v with
  | nil => exact trivial
  | cons call calls ih => exact ⟨hcalls.1, ih hcalls.2⟩

namespace Sound

omit [DecidableEq κ] in
theorem withPolicy (hv : v.Sound config) (policy : Policy) : v.Sound (config.withPolicy policy) :=
  ⟨hv.keys_nodup, hv.mem_keys_iff, hv.length_le⟩

/-- A call that accesses no key comes to the same under each policy. -/
theorem perform_withPolicy (hv : v.Sound config) (hcall : call.Misses v.value) (policy : Policy) :
    v.perform (config.withPolicy policy) call = v.perform config call := by
  cases call with
  | put key value =>
    have hnone : v.value key = none := hcall
    simp only [View.perform, View.put, hnone, Config.withPolicy]
  | get key => simp only [View.perform, hv.touch_of_none hcall]
  | modify key f => simp only [View.perform, hv.touch_of_none hcall]
  | frequency key => cases hcall
  | remove key => rfl
  | erase key => rfl
  | pop => rfl
  | clear => rfl
  | contains key => rfl
  | peek key => rfl
  | victim => rfl

/-- Calls without hits come to the same under each policy. -/
theorem run_withPolicy (hv : v.Sound config) (hcalls : v.Hitless config calls) (policy : Policy) :
    v.run (config.withPolicy policy) calls = v.run config calls := by
  induction calls generalizing v with
  | nil => rfl
  | cons call calls ih =>
    have hcall := hv.perform_withPolicy hcalls.1 policy
    have hrest := ih (hv.perform call) hcalls.2
    simp only [View.run, hcall, hrest]

end Sound

end View

/-! ## Caches -/

namespace Cache

variable {κ ν : Type} [DecidableEq κ] [Hashable κ] {c : Cache κ ν} {config : Config}
  {v : View κ ν}

/-- No call of the list finds a key that it would access. -/
def Hitless (c : Cache κ ν) : List (Call κ ν) → Prop
  | [] => True
  | call :: calls => call.Misses c.peek? ∧ (c.perform call).2.Hitless calls

theorem Shows.hitless_iff (hc : c.Shows config v) (hv : v.Sound config)
    (calls : List (Call κ ν)) : c.Hitless calls ↔ v.Hitless config calls := by
  induction calls generalizing c v with
  | nil => exact Iff.rfl
  | cons call calls ih =>
    have hvalue : c.peek? = v.value := funext hc.value_eq
    rw [Hitless, View.Hitless, hvalue, ih (hc.perform hv call).2 (hv.perform call)]

/-- After calls without hits the caches of two policies show the same view. -/
theorem hitless_shows (config : Config) {calls : List (Call κ ν)}
    (hcalls : (View.empty : View κ ν).Hitless config calls) (policy : Policy) :
    let c := (new config : Cache κ ν).run calls
    let other := (new (config.withPolicy policy) : Cache κ ν).run calls
    other.1 = c.1 ∧ ∃ v : View κ ν, v.Sound config ∧ c.2.Shows config v ∧
      other.2.Shows (config.withPolicy policy) v := by
  intro c other
  have hempty : (View.empty : View κ ν).Sound config := View.Sound.empty
  have hsame := hempty.run_withPolicy hcalls policy
  rcases (Shows.new config).run hempty calls with ⟨hanswers, hshows, hsound⟩
  rcases (Shows.new (config.withPolicy policy)).run (hempty.withPolicy policy) calls with
    ⟨hanswers', hshows', -⟩
  rw [hsame] at hanswers' hshows'
  exact ⟨hanswers'.trans hanswers.symm, _, hsound, hshows, hshows'⟩

/-- If no call finds its key under `fifo`, each policy gives the same answers, which are those of
the plain queue of arrivals. After each of the calls the caches hold the same entries, the same key
leaves next, and all entries would leave in the same order. -/
theorem hitless_run_eq (config : Config) (calls : List (Call κ ν))
    (hcalls : (new (config.withPolicy .fifo) : Cache κ ν).Hitless calls) (policy : Policy) :
    let fifo : Cache κ ν := new (config.withPolicy .fifo)
    let other : Cache κ ν := new (config.withPolicy policy)
    (other.run calls).1 = (fifo.run calls).1 ∧
      (fifo.run calls).1 = (ArrivalQueue.run config.capacity [] calls).1 ∧
      ∀ prior, prior <+: calls →
        (other.run prior).2.peek? = (fifo.run prior).2.peek? ∧
        (other.run prior).2.size = (fifo.run prior).2.size ∧
        (other.run prior).2.victim? = (fifo.run prior).2.victim? ∧
        (other.run prior).2.drain.1 = (fifo.run prior).2.drain.1 := by
  intro fifo other
  have hview : (View.empty : View κ ν).Hitless (config.withPolicy .fifo) calls :=
    ((Shows.new _).hitless_iff View.Sound.empty calls).mp hcalls
  have hqueue : fifo.Queues (config.withPolicy .fifo) [] := Queues.new _ rfl
  refine ⟨(hitless_shows _ hview policy).1, (hqueue.run calls).1, ?_⟩
  rintro prior ⟨later, rfl⟩
  rcases hitless_shows _ hview.of_append policy with ⟨-, v, hsound, hfifo, hother⟩
  have hsound' := hsound.withPolicy policy
  refine ⟨?_, ?_, ?_, ?_⟩
  · funext key
    exact (hother.value_eq key).trans (hfifo.value_eq key).symm
  · exact (hother.size_eq hsound').trans (hfifo.size_eq hsound).symm
  · exact hother.victim?_eq.trans hfifo.victim?_eq.symm
  · exact hother.drain_congr hfifo hsound' hsound

/-- Keys leave by eviction, from the middle and all at once, and come again: the order by access
count answers what the order by arrival answers. -/
theorem hitless_run_eq_reinsertion :
    let config : Config := ⟨2, .lfu, Nat.succ_pos 1⟩
    let calls : List (Call Nat Nat) := [.get 1, .put 1 10, .put 2 20, .put 3 30, .remove 3,
      .put 1 11, .pop, .put 2 21, .clear, .put 1 12]
    let fifo : Cache Nat Nat := new (config.withPolicy .fifo)
    let other : Cache Nat Nat := new (config.withPolicy .lfu)
    fifo.Hitless calls ∧ (other.run calls).1 = (fifo.run calls).1 ∧
      (other.run calls).2.victim? = (fifo.run calls).2.victim? := by
  intro config calls fifo other
  have hview : (View.empty : View Nat Nat).Hitless (config.withPolicy .fifo) calls := by
    exact ⟨rfl, rfl, rfl, rfl, trivial, rfl, trivial, rfl, trivial, rfl, trivial⟩
  have hcalls : fifo.Hitless calls :=
    ((Shows.new _).hitless_iff View.Sound.empty calls).mpr hview
  rcases hitless_run_eq config calls hcalls .lfu with ⟨hanswers, -, hafter⟩
  exact ⟨hcalls, hanswers, (hafter calls List.prefix_rfl).2.2.1⟩

end Cache

end CacheLab
