import LoongsonEjtag.ParserInv

/-! # The calls that take bytes from the ring

What the model of the library takes from its list of received bytes, one call of
`lsejtag_impl_usbrx_consume` after the other.

* `Drains` — the calls in a trace, in order, each of which takes bytes from the
  front.
* `Drained` — a step whose new events drain the ring; every parser step is one.
* `mainPoll_drained` — every call of the main loop is.
-/

namespace LoongsonEjtag

open Lib (Byte sub32 sub32_lt bind_eq_ok)
open Wire

/-! ## Calls -/

/-- How many bytes a call asks for. -/
def Event.consumeLen : Event → List Nat
  | .consume _ len _ _ => [len]
  | _ => []

def consumeLens (trace : List Event) : List Nat := trace.flatMap Event.consumeLen

@[simp] theorem consumeLens_append (t u : List Event) :
    consumeLens (t ++ u) = consumeLens t ++ consumeLens u := by simp [consumeLens]

@[simp] theorem consumeLens_cons (e : Event) (t : List Event) :
    consumeLens (e :: t) = e.consumeLen ++ consumeLens t := rfl

@[simp] theorem consumeLens_nil : consumeLens [] = [] := rfl

/-- The calls in a trace take `rx` from the front and leave the last argument.  A
    length is a `uint32_t`. -/
inductive Drains : List Byte → List Event → List Byte → Prop
  | nil (rx : List Byte) : Drains rx [] rx
  | consume {rx rx' : List Byte} {es : List Event} (offset len : Nat) (small : len < 2 ^ 32)
      (rest : Drains (rx.drop len) es rx') :
      Drains rx (.consume offset len rx.length (rx.take len) :: es) rx'
  | other {rx rx' : List Byte} {es : List Event} (e : Event) (noCall : e.consumeLen = [])
      (rest : Drains rx es rx') : Drains rx (e :: es) rx'

namespace Drains

variable {rx rx' rx'' : List Byte} {es fs : List Event}

theorem append (first : Drains rx es rx') (second : Drains rx' fs rx'') :
    Drains rx (es ++ fs) rx'' := by
  induction first with
  | nil => exact second
  | consume offset len small _ ih => exact .consume offset len small (ih second)
  | other e noCall _ ih => exact .other e noCall (ih second)

/-- Output takes nothing. -/
theorem output (output : AllOutput es) : Drains rx es rx := by
  induction es with
  | nil => exact .nil rx
  | cons e es ih =>
    have out := output e List.mem_cons_self
    refine .other e ?_ (ih fun e member => output e (List.mem_cons_of_mem _ member))
    cases e with
    | consume => cases out
    | _ => rfl

end Drains

/-- From `w` to `w'` the ring is drained by the calls that are new in the trace. -/
def Drained (w w' : World) : Prop :=
  ∃ es, w'.trace = w.trace ++ es ∧ Drains w.rx es w'.rx

namespace Drained

variable {w w' w'' : World}

theorem same (rx : w'.rx = w.rx) (trace : w'.trace = w.trace) : Drained w w' :=
  ⟨[], by rw [trace, List.append_nil], by rw [rx]; exact .nil _⟩

theorem trans (first : Drained w w') (second : Drained w' w'') : Drained w w'' := by
  obtain ⟨es, trace, drains⟩ := first
  obtain ⟨fs, trace', drains'⟩ := second
  exact ⟨es ++ fs, by rw [trace', trace, List.append_assoc], drains.append drains'⟩

theorem log (w : World) {e : Event} (noCall : e.consumeLen = []) : Drained w (w.log e) :=
  ⟨[e], rfl, .other e noCall (.nil _)⟩

theorem output (output : OutputOnly w w') : Drained w w' := by
  obtain ⟨rx, es, trace, output⟩ := output
  exact ⟨es, trace, rx ▸ .output output⟩

/-- New output in front of an unchanged ring. -/
theorem silent {es : List Event} (rx : w'.rx = w.rx) (trace : w'.trace = w.trace ++ es)
    (silent : AllOutput es) : Drained w w' :=
  .output ⟨rx, es, trace, silent⟩

end Drained

/-! ## Parser steps -/

section parser

variable {w w' : World} {r : LsejtagDispatchResult}

theorem lsejtagImplUsbrxConsume_drained {offset len : Nat} (small : len < 2 ^ 32)
    (consumed : lsejtagImplUsbrxConsume w offset len = .ok w') : Drained w w' := by
  obtain ⟨buf, -, rfl⟩ := lsejtagImplUsbrxConsume_ok consumed
  exact ⟨[_], rfl, .consume offset len small (.nil _)⟩

theorem bufferMore_drained {len : Nat} (small : len < 2 ^ 32)
    (fed : bufferMore w len = .ok w') : Drained w w' := by
  obtain ⟨after, consumed, finished⟩ := bind_eq_ok.mp fed
  cases finished
  exact (lsejtagImplUsbrxConsume_drained small consumed).trans (.same rfl rfl)

theorem fetchHeader_drained {offset len buffered : Nat} {state : LsejtagCmdBufState}
    (small : len < 2 ^ 32) (fetched : fetchHeader w offset len buffered state = .ok w') :
    Drained w w' := by
  obtain ⟨after, consumed, finished⟩ := bind_eq_ok.mp fetched
  cases finished
  exact (lsejtagImplUsbrxConsume_drained small consumed).trans (.same rfl rfl)

theorem waitPayload_drained {lenRx : Nat} (small : lenRx < 2 ^ 32)
    (waited : waitPayload w lenRx = .ok (r, w')) : Drained w w' := by
  simp only [waitPayload] at waited
  split at waited
  · obtain ⟨after, fed, finished⟩ := bind_eq_ok.mp waited
    cases finished
    exact (bufferMore_drained small fed).trans (.same rfl rfl)
  · obtain ⟨after, fed, finished⟩ := bind_eq_ok.mp waited
    cases finished
    exact (bufferMore_drained (by omega) fed).trans (.same rfl rfl)

theorem bufferRest_drained {lenRx : Nat} (small : lenRx < 2 ^ 32)
    (waited : bufferRest w lenRx = .ok (r, w')) : Drained w w' := by
  obtain ⟨after, fed, finished⟩ := bind_eq_ok.mp waited
  cases finished
  exact bufferMore_drained small fed

theorem waitIrdrCfg_drained {lenRx lenAvail : Nat} (small : lenRx < 2 ^ 32)
    (waited : waitIrdrCfg w lenRx lenAvail = .ok (r, w')) : Drained w w' := by
  simp only [waitIrdrCfg] at waited
  split at waited
  · obtain ⟨after, fed, waited⟩ := bind_eq_ok.mp waited
    have fetched := bufferMore_drained (sub32_lt _ _) fed
    split at waited
    · cases waited
      exact fetched.trans (.same rfl rfl)
    · have payload := waitPayload_drained (sub32_lt _ _) waited
      exact fetched.trans (.trans (.same rfl rfl) payload)
  · exact bufferRest_drained small waited

theorem waitLoopbackCfg_drained {lenRx lenAvail : Nat} (small : lenRx < 2 ^ 32)
    (waited : waitLoopbackCfg w lenRx lenAvail = .ok (r, w')) : Drained w w' := by
  simp only [waitLoopbackCfg] at waited
  split at waited
  · obtain ⟨after, consumed, finished⟩ := bind_eq_ok.mp waited
    cases finished
    exact (lsejtagImplUsbrxConsume_drained (sub32_lt _ _) consumed).trans (.same rfl rfl)
  · exact bufferRest_drained small waited

theorem waitFastCfg_drained {expectLen lenRx lenAvail : Nat} (small : lenRx < 2 ^ 32)
    (waited : waitFastCfg w expectLen lenRx lenAvail = .ok (r, w')) : Drained w w' := by
  simp only [waitFastCfg] at waited
  split at waited
  · obtain ⟨after, fed, finished⟩ := bind_eq_ok.mp waited
    cases finished
    exact (bufferMore_drained (sub32_lt _ _) fed).trans (.same rfl rfl)
  · exact bufferRest_drained small waited

theorem waitCfg_drained {lenRx lenAvail : Nat} (small : lenRx < 2 ^ 32)
    (waited : waitCfg w lenRx lenAvail = .ok (r, w')) : Drained w w' := by
  simp only [waitCfg] at waited
  split at waited
  · have payload := waitPayload_drained small waited
    exact .trans (.same rfl rfl) payload
  · cases waited
    exact .same rfl rfl
  · cases waited
    exact .same rfl rfl
  · exact waitIrdrCfg_drained small waited
  · exact waitIrdrCfg_drained small waited
  · exact waitLoopbackCfg_drained small waited
  · exact waitFastCfg_drained small waited
  · exact waitFastCfg_drained small waited
  · exact waitFastCfg_drained small waited
  · exact waitFastCfg_drained small waited
  · cases waited
    exact .same rfl rfl

theorem dispatchCmdBuf_drained (ring : w.rx.length ≤ usbrxCapacity)
    (parsed : dispatchCmdBuf w = .ok (r, w')) : Drained w w' := by
  have small : w.rx.length < 2 ^ 32 := ring.trans_lt (by decide)
  simp only [dispatchCmdBuf] at parsed
  split at parsed
  · split at parsed
    · cases parsed
      exact .same rfl rfl
    · split at parsed
      · obtain ⟨after, fetched, finished⟩ := bind_eq_ok.mp parsed
        cases finished
        exact fetchHeader_drained (by decide) fetched
      · obtain ⟨after, fetched, waited⟩ := bind_eq_ok.mp parsed
        exact (fetchHeader_drained (by decide) fetched).trans
          (waitCfg_drained (sub32_lt _ _) waited)
  · split at parsed
    · cases parsed
      exact .same rfl rfl
    · obtain ⟨after, fetched, waited⟩ := bind_eq_ok.mp parsed
      exact (fetchHeader_drained (by decide) fetched).trans
        (waitCfg_drained (sub32_lt _ _) waited)
  · exact waitCfg_drained small parsed
  · exact waitPayload_drained small parsed
  · cases parsed
    exact .same rfl rfl

end parser

/-! ## The main loop -/

section mainLoop

variable {w w' : World}

theorem Dispatched.drained {r : LsejtagDispatchResult} (dispatched : Dispatched w r w')
    (ring : w.rx.length ≤ usbrxCapacity) : Drained w w' := by
  cases dispatched with
  | flushing | flushNew | run | empty => exact .same rfl rfl
  | parsed _ _ _ _ parsed => exact dispatchCmdBuf_drained ring parsed

theorem PayloadFetched.drained {complete : Bool} (fetched : PayloadFetched w complete w')
    (ring : w.rx.length ≤ usbrxCapacity) : Drained w w' := by
  have small : w.rx.length < 2 ^ 32 := ring.trans_lt (by decide)
  cases fetched with
  | enough => exact .same rfl rfl
  | filled buf => exact ⟨[_], rfl, .consume _ _ (sub32_lt _ _) (.nil _)⟩
  | short buf => exact ⟨[_], rfl, .consume _ _ small (.nil _)⟩

theorem Executed.drained {r : LsejtagCmdExecResult} (executed : Executed w r w')
    (ring : w.rx.length ≤ usbrxCapacity) : Drained w w' := by
  obtain output | ⟨_, _, middle, -, -, fetched, output⟩ := executed.fetches
  · exact .output output
  · have truncated : Drained w { w with ctx := truncateXfers w.ctx } := .same rfl rfl
    exact truncated.trans ((fetched.drained ring).trans (.output output))

/-- Every call of the main loop takes its bytes from the front of the ring. -/
theorem mainPoll_drained {s s' : MainState} {txFree : Nat} {tdo : Nat → Bool} (inv : MainInv s)
    (ring : s.world.rx.length ≤ usbrxCapacity) (polled : mainPoll s txFree tdo = some s') :
    Drained s.world s'.world := by
  have entered : Drained s.world s.world.enterExecute := .log _ rfl
  cases mainPoll_stepped inv polled with
  | dispatched _ r w' dispatched => exact dispatched.drained ring
  | executed _ _ _ r w' executed =>
    have returned : Drained w' (w'.log (.executed r)) := .log w' rfl
    exact entered.trans ((executed.drained ring).trans returned)
  | flushed _ _ _ _ w' _ rx trace =>
    exact .silent rx trace (by simp [AllOutput, Event.isOutput])
  | ran _ _ _ w' _ ran => exact .silent ran.rx ran.trace (by simp [AllOutput, Event.isOutput])
  | executeFailed => exact entered
  | nothingToRun | dispatchFailed | callFailed => exact .same rfl rfl

end mainLoop

end LoongsonEjtag
