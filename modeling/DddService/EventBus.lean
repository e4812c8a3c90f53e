import Mathlib.Data.Finset.Insert
import Mathlib.Data.Finset.Lattice.Basic
import Mathlib.Data.Finset.Dedup
import Mathlib.Data.Finset.Erase
import DddService.UseCase

/- `EventBus`: the registering of functions and what publishing an event runs. The bus keeps
   sets of function objects, and `subscribe` hands back a new object for the function it has
   registered: a second decorator on the same function registers another object, which the set
   does not know to be the same. `runs_once_iff` says exactly which calls give every function
   one run for each event. -/
namespace DddService

/-! ## The bus -/

/-- A function object: a function, or what the `call`-th successful `subscribe` made of one. -/
inductive FuncObj (F : Type) where
  | function (f : F)
  | wrapper (call : Nat) (func : FuncObj F)
  deriving DecidableEq

/-- The function that runs when the object is called. -/
def FuncObj.underlying {F : Type} : FuncObj F → F
  | .function f => f
  | .wrapper _ func => func.underlying

structure InvalidEventRegisterError where
  msg : String
  deriving DecidableEq

structure EventBus (EventType F : Type) where
  subscribedForEvents : EventType → Finset (FuncObj F)
  subscribedForAll : Finset (FuncObj F)

namespace EventBus
variable {EventType F : Type}

def new : EventBus EventType F := ⟨fun _ => ∅, ∅⟩

variable [DecidableEq EventType] [DecidableEq F]

/-- `self._subscribed_for_events[event_type].add(func)` -/
def addForEvent (func : FuncObj F) (bus : EventBus EventType F) (eventType : EventType) :
    EventBus EventType F :=
  let funcs := insert func (bus.subscribedForEvents eventType)
  { bus with subscribedForEvents := Function.update bus.subscribedForEvents eventType funcs }

/-- `subscribe`, with the decorator applied to `func`: the bus afterwards. `None` for
    `event_types` does what the empty list does. -/
def subscribe (bus : EventBus EventType F) (eventTypes : List EventType) (allEvent : Bool)
    (func : FuncObj F) : Except InvalidEventRegisterError (EventBus EventType F) :=
  if allEvent && !eventTypes.isEmpty then
    .error ⟨"You can only register a function to some specific event or for all event"⟩
  else if allEvent then
    .ok { bus with subscribedForAll := insert func bus.subscribedForAll }
  else
    .ok (eventTypes.foldl (addForEvent func) bus)

def deregisterAllEvents (_ : EventBus EventType F) : EventBus EventType F := new

/-- `_event_funcs` of an event of the type. -/
def eventFuncs (bus : EventBus EventType F) (eventType : EventType) : Finset (FuncObj F) :=
  bus.subscribedForEvents eventType ∪ bus.subscribedForAll

end EventBus

/-- `publish`, where the set is iterated in this order: the functions that run. One that raises
    is the last. -/
def publishRuns {F : Type} (raises : F → Bool) : List (FuncObj F) → List F
  | [] => []
  | func :: rest =>
    func.underlying :: if raises func.underlying then [] else publishRuns raises rest

/-! ## Registering -/

/-- What a decorator is put on: a function, or what the `call`-th successful call handed back. -/
inductive Target (F : Type) where
  | function (f : F)
  | returned (call : Nat)

inductive RegisterCall (EventType F : Type) where
  | subscribe (eventTypes : List EventType) (allEvent : Bool) (target : Target F)
  | deregisterAllEvents

/-- A function object registered for an event type, or for all events: `none`. -/
structure Registration (EventType F : Type) where
  event : Option EventType
  func : FuncObj F

/-- The bus, the objects handed back so far, and what has been registered since the last
    deregistration. -/
structure Registry (EventType F : Type) where
  bus : EventBus EventType F
  returned : List (FuncObj F)
  registrations : List (Registration EventType F)

def registrationsOf {EventType F : Type} (eventTypes : List EventType) (allEvent : Bool)
    (func : FuncObj F) : List (Registration EventType F) :=
  if allEvent then [⟨none, func⟩] else eventTypes.map fun t => ⟨some t, func⟩

namespace Registry
variable {EventType F : Type}

def new : Registry EventType F := ⟨.new, [], []⟩

/-- The object a decorator is put on; none if it has not been handed back yet. -/
def resolve (r : Registry EventType F) : Target F → Option (FuncObj F)
  | .function f => some (.function f)
  | .returned call => r.returned[call]?

variable [DecidableEq EventType] [DecidableEq F]

def step (r : Registry EventType F) : RegisterCall EventType F → Registry EventType F
  | .deregisterAllEvents => { r with bus := r.bus.deregisterAllEvents, registrations := [] }
  | .subscribe eventTypes allEvent target =>
    match r.resolve target with
    | none => r
    | some func =>
      match r.bus.subscribe eventTypes allEvent func with
      | .error _ => r
      | .ok bus =>
        { bus := bus
          returned := r.returned ++ [.wrapper r.returned.length func]
          registrations := r.registrations ++ registrationsOf eventTypes allEvent func }

def run (calls : List (RegisterCall EventType F)) : Registry EventType F := calls.foldl step new

end Registry

/-! ## What is asked -/

section
variable {EventType F : Type} [DecidableEq EventType] [DecidableEq F]

/-- The objects of a set, one after the other, in some order. -/
structure Iterates {α : Type} (s : Finset α) (order : List α) : Prop where
  nodup : order.Nodup
  mem : ∀ x, x ∈ order ↔ x ∈ s

def Registration.appliesTo (reg : Registration EventType F) (eventType : EventType) : Prop :=
  reg.event = none ∨ reg.event = some eventType

/-- The function has been registered for the type, or for all events. -/
def RegisteredFor (regs : List (Registration EventType F)) (eventType : EventType) (f : F) : Prop :=
  ∃ reg ∈ regs, reg.appliesTo eventType ∧ reg.func.underlying = f

/-- After the calls, an event of any type gives each registered function one run, and the others
    none; and no function is registered both for some event and for all. -/
structure RunsOnce (raises : EventType → F → Bool) (r : Registry EventType F) : Prop where
  once : ∀ eventType order, Iterates (r.bus.eventFuncs eventType) order → ∀ f,
    RegisteredFor r.registrations eventType f → (publishRuns (raises eventType) order).count f = 1
  others : ∀ eventType order, Iterates (r.bus.eventFuncs eventType) order → ∀ f,
    ¬ RegisteredFor r.registrations eventType f → f ∉ publishRuns (raises eventType) order
  exclusive : ∀ eventType, ∀ func ∈ r.bus.subscribedForEvents eventType,
    ∀ func' ∈ r.bus.subscribedForAll, func.underlying ≠ func'.underlying

/-- Of two objects registered for one type, both are of one function just where that raises.
    Where nothing raises: no function is registered through two objects. -/
structure OneObjectEach (raises : EventType → F → Bool)
    (regs : List (Registration EventType F)) : Prop where
  objects : ∀ eventType, ∀ reg ∈ regs, ∀ reg' ∈ regs, reg.appliesTo eventType →
    reg'.appliesTo eventType → reg.func ≠ reg'.func →
    (reg.func.underlying = reg'.func.underlying ↔ raises eventType reg.func.underlying = true)
  kinds : ∀ reg ∈ regs, ∀ reg' ∈ regs, reg.func.underlying = reg'.func.underlying →
    (reg.event = none ↔ reg'.event = none)

/-! ## What is registered -/

/-- The sets of the bus are the registrations. -/
structure Tracks (bus : EventBus EventType F) (regs : List (Registration EventType F)) : Prop where
  events : ∀ eventType func, func ∈ bus.subscribedForEvents eventType ↔
    (⟨some eventType, func⟩ : Registration EventType F) ∈ regs
  all : ∀ func, func ∈ bus.subscribedForAll ↔ (⟨none, func⟩ : Registration EventType F) ∈ regs

omit [DecidableEq EventType] [DecidableEq F] in
theorem tracks_new : Tracks (EventBus.new : EventBus EventType F) [] where
  events := by simp [EventBus.new]
  all := by simp [EventBus.new]

theorem tracks_addForEvent {bus : EventBus EventType F} {regs : List (Registration EventType F)}
    (h : Tracks bus regs) (func : FuncObj F) (eventType : EventType) :
    Tracks (bus.addForEvent func eventType) (regs ++ [⟨some eventType, func⟩]) where
  events := by
    intro t func'
    by_cases ht : t = eventType
    · subst ht
      simp [EventBus.addForEvent, h.events, or_comm]
    · simp [EventBus.addForEvent, h.events, ht]
  all := by simp [EventBus.addForEvent, h.all]

theorem tracks_subscribe {bus bus' : EventBus EventType F}
    {regs : List (Registration EventType F)} (h : Tracks bus regs) {eventTypes : List EventType}
    {allEvent : Bool} {func : FuncObj F} (hok : bus.subscribe eventTypes allEvent func = .ok bus') :
    Tracks bus' (regs ++ registrationsOf eventTypes allEvent func) := by
  unfold EventBus.subscribe at hok
  split at hok
  · cases hok
  · cases allEvent with
    | true =>
      cases hok
      constructor
      · intro t func'
        simp [registrationsOf, h.events]
      · intro func'
        simp [registrationsOf, h.all, or_comm]
    | false =>
      cases hok
      simp only [registrationsOf, Bool.false_eq_true, if_false]
      induction eventTypes generalizing bus regs with
      | nil => simpa using h
      | cons t eventTypes ih =>
        have hstep := ih (tracks_addForEvent h func t)
        simpa using hstep

theorem tracks_step {r : Registry EventType F} (h : Tracks r.bus r.registrations)
    (call : RegisterCall EventType F) : Tracks (r.step call).bus (r.step call).registrations := by
  cases call with
  | deregisterAllEvents => exact tracks_new
  | subscribe eventTypes allEvent target =>
    simp only [Registry.step]
    split
    · exact h
    · split
      · exact h
      · rename_i hok
        exact tracks_subscribe h hok

/-- After any calls, the sets of the bus are what has been registered since the last
    deregistration. -/
theorem tracks_run (calls : List (RegisterCall EventType F)) :
    Tracks (Registry.run calls).bus (Registry.run calls).registrations := by
  unfold Registry.run
  induction calls using List.reverseRecOn with
  | nil => exact tracks_new
  | append_singleton calls call ih =>
    rw [List.foldl_append]
    exact tracks_step ih call

omit [DecidableEq EventType] in
theorem mem_eventFuncs {bus : EventBus EventType F} {regs : List (Registration EventType F)}
    (h : Tracks bus regs) (eventType : EventType) (func : FuncObj F) :
    func ∈ bus.eventFuncs eventType ↔ ∃ reg ∈ regs, reg.appliesTo eventType ∧ reg.func = func := by
  rw [EventBus.eventFuncs, Finset.mem_union, h.events, h.all]
  constructor
  · rintro (hmem | hmem)
    · exact ⟨_, hmem, .inr rfl, rfl⟩
    · exact ⟨_, hmem, .inl rfl, rfl⟩
  · rintro ⟨⟨event, func'⟩, hmem, happlies, rfl⟩
    obtain heq | heq := happlies
    · dsimp only at heq
      exact .inr (heq ▸ hmem)
    · dsimp only at heq
      exact .inl (heq ▸ hmem)

/-- What the `i`-th successful call hands back is an object of its own. -/
theorem returned_wrapper (calls : List (RegisterCall EventType F)) {i : Nat} {func : FuncObj F}
    (h : (Registry.run calls).returned[i]? = some func) :
    ∃ inner, func = FuncObj.wrapper i inner := by
  unfold Registry.run at h
  induction calls using List.reverseRecOn with
  | nil => simp [Registry.new] at h
  | append_singleton calls call ih =>
    rw [List.foldl_append, List.foldl_cons, List.foldl_nil] at h
    generalize calls.foldl Registry.step Registry.new = r at h ih
    cases call with
    | deregisterAllEvents => exact ih h
    | subscribe eventTypes allEvent target =>
      simp only [Registry.step] at h
      split at h
      · exact ih h
      · rename_i inner _
        split at h
        · exact ih h
        · dsimp only at h
          rw [List.getElem?_append] at h
          split at h
          · exact ih h
          · rename_i hi
            obtain ⟨hzero, rfl⟩ := List.getElem?_eq_some_iff.mp h
            rw [List.length_singleton] at hzero
            have hindex : i = r.returned.length := by omega
            exact ⟨inner, by rw [List.getElem_singleton, hindex]⟩

/-! ## What runs -/

omit [DecidableEq EventType] [DecidableEq F] in
theorem publishRuns_eq_map {raises : F → Bool} {order : List (FuncObj F)}
    (h : ∀ func ∈ order, raises func.underlying = false) :
    publishRuns raises order = order.map FuncObj.underlying := by
  induction order with
  | nil => rfl
  | cons func rest ih =>
    rw [publishRuns, h func (by simp), ih fun x hx => h x (by simp [hx])]
    rfl

omit [DecidableEq EventType] [DecidableEq F] in
theorem publishRuns_subset {raises : F → Bool} {order : List (FuncObj F)} {f : F}
    (h : f ∈ publishRuns raises order) : ∃ func ∈ order, func.underlying = f := by
  induction order with
  | nil => cases h
  | cons func rest ih =>
    rw [publishRuns] at h
    obtain rfl | h := List.mem_cons.mp h
    · exact ⟨func, by simp, rfl⟩
    · split at h
      · cases h
      · obtain ⟨func', hmem, heq⟩ := ih h
        exact ⟨func', by simp [hmem], heq⟩

/-- Two objects of a set are of one function just where that raises. -/
def Separated (raises : F → Bool) (s : Finset (FuncObj F)) : Prop :=
  ∀ func ∈ s, ∀ func' ∈ s, func ≠ func' →
    (func.underlying = func'.underlying ↔ raises func.underlying = true)

omit [DecidableEq EventType] in
theorem count_of_separated {raises : F → Bool} {s : Finset (FuncObj F)} (h : Separated raises s)
    {order : List (FuncObj F)} (hiter : Iterates s order) {func : FuncObj F} (hfunc : func ∈ s) :
    (publishRuns raises order).count func.underlying = 1 := by
  cases order with
  | nil => cases (hiter.mem func).mpr hfunc
  | cons first rest =>
    have hfirst : first ∈ s := (hiter.mem first).mp (by simp)
    have hne : ∀ other ∈ rest, first ≠ other := by
      rintro other hother rfl
      exact (List.nodup_cons.mp hiter.nodup).1 hother
    have hrest : ∀ other ∈ rest, other ∈ s := fun other ho => (hiter.mem other).mp (by simp [ho])
    have hmem := (hiter.mem func).mpr hfunc
    cases hraises : raises first.underlying with
    | true =>
      -- only the first runs, and all the others are of its function
      have hsame : func.underlying = first.underlying := by
        obtain rfl | hmem := List.mem_cons.mp hmem
        · rfl
        · exact ((h first hfirst func hfunc (hne func hmem)).mpr hraises).symm
      rw [publishRuns, hraises, hsame]
      simp
    | false =>
      have hother : ∀ other ∈ rest, first.underlying ≠ other.underlying := by
        intro other ho heq
        have htrue := (h first hfirst other (hrest other ho) (hne other ho)).mp heq
        rw [hraises] at htrue
        cases htrue
      have hnone : ∀ other ∈ first :: rest, raises other.underlying = false := by
        intro other ho
        obtain rfl | ho := List.mem_cons.mp ho
        · exact hraises
        · have hiff := h other (hrest other ho) first hfirst (hne other ho).symm
          rw [Bool.eq_false_iff]
          exact fun htrue => hother other ho (hiff.mpr htrue).symm
      have hinj : ∀ x ∈ first :: rest, ∀ y ∈ first :: rest, x.underlying = y.underlying →
          x = y := by
        intro x hx y hy heq
        by_contra hxy
        have htrue := (h x ((hiter.mem x).mp hx) y ((hiter.mem y).mp hy) hxy).mp heq
        rw [hnone x hx] at htrue
        cases htrue
      rw [publishRuns_eq_map hnone]
      exact List.count_eq_one_of_mem (List.Nodup.map_on hinj hiter.nodup)
        (List.mem_map_of_mem hmem)

omit [DecidableEq EventType] in
theorem exists_iterates {s : Finset (FuncObj F)} {func func' : FuncObj F} (h : func ∈ s)
    (h' : func' ∈ s) (hne : func ≠ func') :
    ∃ rest, Iterates s (func :: func' :: rest) := by
  refine ⟨((s.erase func).erase func').toList, ?_, fun x => ?_⟩
  · simp [hne, Finset.nodup_toList]
  · simp only [List.mem_cons, Finset.mem_toList, Finset.mem_erase]
    constructor
    · rintro (rfl | rfl | hx)
      · exact h
      · exact h'
      · exact hx.2.2
    · intro hx
      by_cases hx1 : x = func
      · exact .inl hx1
      · by_cases hx2 : x = func'
        · exact .inr (.inl hx2)
        · exact .inr (.inr ⟨hx2, hx1, hx⟩)

omit [DecidableEq EventType] in
/-- A set of which each function runs once, in any order, is separated. -/
theorem separated_of_count {raises : F → Bool} {s : Finset (FuncObj F)}
    (h : ∀ order, Iterates s order → ∀ func ∈ s,
      (publishRuns raises order).count func.underlying = 1) : Separated raises s := by
  intro func hfunc func' hfunc' hne
  obtain ⟨rest, hiter⟩ := exists_iterates hfunc hfunc' hne
  have hcount := h _ hiter
  cases hraises : raises func.underlying with
  | true =>
    have hone := hcount func' hfunc'
    rw [publishRuns, hraises] at hone
    simp only [if_true] at hone
    have hmem : func'.underlying ∈ [func.underlying] := List.count_pos_iff.mp (by omega)
    exact iff_of_true (List.mem_singleton.mp hmem).symm rfl
  | false =>
    refine iff_of_false (fun heq => ?_) (by simp)
    have hone := hcount func hfunc
    rw [publishRuns, hraises, publishRuns, ← heq] at hone
    simp at hone

/-! ## When every function runs once -/

omit [DecidableEq EventType] in
theorem registeredFor_iff {bus : EventBus EventType F} {regs : List (Registration EventType F)}
    (h : Tracks bus regs) (eventType : EventType) (f : F) :
    RegisteredFor regs eventType f ↔ ∃ func ∈ bus.eventFuncs eventType, func.underlying = f := by
  constructor
  · rintro ⟨reg, hreg, happlies, rfl⟩
    exact ⟨reg.func, (mem_eventFuncs h eventType reg.func).mpr ⟨reg, hreg, happlies, rfl⟩, rfl⟩
  · rintro ⟨func, hfunc, rfl⟩
    obtain ⟨reg, hreg, happlies, rfl⟩ := (mem_eventFuncs h eventType func).mp hfunc
    exact ⟨reg, hreg, happlies, rfl⟩

omit [DecidableEq EventType] in
theorem oneObjectEach_of_runsOnce {raises : EventType → F → Bool} {r : Registry EventType F}
    (htracks : Tracks r.bus r.registrations) (h : RunsOnce raises r) :
    OneObjectEach raises r.registrations := by
  constructor
  · intro eventType reg hreg reg' hreg' happlies happlies' hne
    have hmem := (mem_eventFuncs htracks eventType reg.func).mpr ⟨reg, hreg, happlies, rfl⟩
    have hmem' := (mem_eventFuncs htracks eventType reg'.func).mpr ⟨reg', hreg', happlies', rfl⟩
    refine separated_of_count (fun order hiter func hfunc => ?_) _ hmem _ hmem' hne
    exact h.once eventType order hiter _
      ((registeredFor_iff htracks eventType _).mpr ⟨func, hfunc, rfl⟩)
  · rintro ⟨event, func⟩ hreg ⟨event', func'⟩ hreg' hsame
    dsimp only at hsame ⊢
    cases event with
    | none =>
      cases event' with
      | none => exact Iff.rfl
      | some t =>
        have hne := h.exclusive t func' ((htracks.events t func').mpr hreg') func
          ((htracks.all func).mpr hreg)
        exact absurd hsame.symm hne
    | some t =>
      cases event' with
      | none =>
        have hne := h.exclusive t func ((htracks.events t func).mpr hreg) func'
          ((htracks.all func').mpr hreg')
        exact absurd hsame hne
      | some t' => exact iff_of_false (by simp) (by simp)

omit [DecidableEq EventType] in
theorem runsOnce_of_oneObjectEach {raises : EventType → F → Bool} {r : Registry EventType F}
    (htracks : Tracks r.bus r.registrations) (h : OneObjectEach raises r.registrations) :
    RunsOnce raises r := by
  have hseparated : ∀ eventType, Separated (raises eventType) (r.bus.eventFuncs eventType) := by
    intro eventType func hfunc func' hfunc' hne
    obtain ⟨reg, hreg, happlies, rfl⟩ := (mem_eventFuncs htracks eventType func).mp hfunc
    obtain ⟨reg', hreg', happlies', rfl⟩ := (mem_eventFuncs htracks eventType func').mp hfunc'
    exact h.objects eventType reg hreg reg' hreg' happlies happlies' hne
  constructor
  · intro eventType order hiter f hf
    obtain ⟨func, hfunc, rfl⟩ := (registeredFor_iff htracks eventType f).mp hf
    exact count_of_separated (hseparated eventType) hiter hfunc
  · intro eventType order hiter f hf hmem
    obtain ⟨func, hfunc, heq⟩ := publishRuns_subset hmem
    exact hf ((registeredFor_iff htracks eventType f).mpr
      ⟨func, (hiter.mem func).mp hfunc, heq⟩)
  · intro eventType func hfunc func' hfunc' hsame
    have hkinds := h.kinds _ ((htracks.events eventType func).mp hfunc) _
      ((htracks.all func').mp hfunc') hsame
    cases hkinds.mpr rfl

/-- After any calls, whatever the functions do: the bus runs each registered function once if and
    only if two objects registered for one type are of one function just where that raises, and
    no function is registered for some event and for all. -/
theorem runs_once_iff (raises : EventType → F → Bool) (calls : List (RegisterCall EventType F)) :
    RunsOnce raises (Registry.run calls) ↔
      OneObjectEach raises (Registry.run calls).registrations :=
  ⟨oneObjectEach_of_runsOnce (tracks_run calls), runsOnce_of_oneObjectEach (tracks_run calls)⟩

theorem iterates_singleton {α : Type} {a : α} {order : List α}
    (h : Iterates ({a} : Finset α) order) : order = [a] := by
  have hperm : order.Perm [a] :=
    (List.perm_ext_iff_of_nodup h.nodup (List.nodup_singleton a)).mpr fun x => by simp [h.mem]
  exact List.perm_singleton.mp hperm

theorem iterates_empty {α : Type} {order : List α} (h : Iterates (∅ : Finset α) order) :
    order = [] := by
  rw [List.eq_nil_iff_forall_not_mem]
  intro x hx
  simpa using (h.mem x).mp hx

end

/-! ## Registrations -/

/-- `@event_bus.subscribe(event_types=[T])`, twice on one function. -/
def stackedDecorators : List (RegisterCall Unit Unit) :=
  [.subscribe [()] false (.function ()), .subscribe [()] false (.returned 0)]

/-- The function then runs twice for an event. -/
theorem stacked_decorators_run_twice :
    ¬ RunsOnce (fun _ _ => false) (Registry.run stackedDecorators) := by
  intro h
  have hfuncs : (Registry.run stackedDecorators).bus.eventFuncs () =
      [.function (), .wrapper 0 (.function ())].toFinset := by decide
  have hiter : Iterates ((Registry.run stackedDecorators).bus.eventFuncs ())
      [.function (), .wrapper 0 (.function ())] :=
    ⟨by decide, fun func => by rw [hfuncs, List.mem_toFinset]⟩
  have hregistered : RegisteredFor (Registry.run stackedDecorators).registrations () () := by
    rw [registeredFor_iff (tracks_run stackedDecorators), hfuncs]
    exact ⟨.function (), by simp, rfl⟩
  have hcount := h.once () _ hiter () hregistered
  revert hcount
  decide

namespace YourAggregateEventHandler

/-- The classes of the events. -/
inductive EventClass where
  | yourAggregateCreated | yourAggregateDeleted | yourAggregateVoided | yourAggregateUpdated
  deriving DecidableEq

/-- `type(event)` -/
def eventClass (event : DomainEvent) : EventClass :=
  match event.body with
  | .yourAggregateCreated .. => .yourAggregateCreated
  | .yourAggregateDeleted .. => .yourAggregateDeleted
  | .yourAggregateVoided .. => .yourAggregateVoided
  | .yourAggregateUpdated .. => .yourAggregateUpdated

/-- The methods of the class. -/
inductive Method where
  | handleYourAggregateCreated | handleYourAggregateVoided
  deriving DecidableEq

/-- What a method does with an event of its class. -/
def Method.body (env : Env) (bus : Bus) (event : DomainEvent) : Method → Option (M Unit)
  | .handleYourAggregateCreated =>
    match event.body with
    | .yourAggregateCreated id v d =>
      some (YourAggregateEventHandler.handleYourAggregateCreated env bus id v d)
    | _ => none
  | .handleYourAggregateVoided =>
    match event.body with
    | .yourAggregateVoided id _ => some (YourAggregateEventHandler.handleYourAggregateVoided env id)
    | _ => none

/-- The decorators of the class, as they run at its import. -/
def decorators : List (RegisterCall EventClass Method) :=
  [.subscribe [.yourAggregateCreated] false (.function .handleYourAggregateCreated),
    .subscribe [.yourAggregateVoided] false (.function .handleYourAggregateVoided)]

theorem decorators_registrations : (Registry.run decorators).registrations =
    [⟨some .yourAggregateCreated, .function .handleYourAggregateCreated⟩,
      ⟨some .yourAggregateVoided, .function .handleYourAggregateVoided⟩] := rfl

/-- With the decorators of the class, each method runs once for an event of its class. -/
theorem decorators_run_once (raises : EventClass → Method → Bool) :
    RunsOnce raises (Registry.run decorators) := by
  refine runsOnce_of_oneObjectEach (tracks_run decorators) ?_
  rw [decorators_registrations]
  constructor
  · intro eventType reg hreg reg' hreg' happlies happlies' hne
    simp only [List.mem_cons, List.not_mem_nil, or_false] at hreg hreg'
    simp only [Registration.appliesTo] at happlies happlies'
    obtain rfl | rfl := hreg <;> obtain rfl | rfl := hreg'
    · exact absurd rfl hne
    · simp only [reduceCtorEq, Option.some.injEq, false_or] at happlies happlies'
      rw [← happlies] at happlies'
      cases happlies'
    · simp only [reduceCtorEq, Option.some.injEq, false_or] at happlies happlies'
      rw [← happlies] at happlies'
      cases happlies'
    · exact absurd rfl hne
  · intro reg hreg reg' hreg' _
    simp only [List.mem_cons, List.not_mem_nil, or_false] at hreg hreg'
    obtain rfl | rfl := hreg <;> obtain rfl | rfl := hreg' <;> simp

theorem published_handlers (env : Env) (bus : Bus) (event : DomainEvent)
    {order : List (FuncObj Method)}
    (h : Iterates ((Registry.run decorators).bus.eventFuncs (eventClass event)) order) :
    order.map (fun func => func.underlying.body env bus event) =
      (handlers env bus event).map fun handler => some (handler event) := by
  have hcreated : (Registry.run decorators).bus.eventFuncs .yourAggregateCreated =
      {.function .handleYourAggregateCreated} := by decide
  have hvoided : (Registry.run decorators).bus.eventFuncs .yourAggregateVoided =
      {.function .handleYourAggregateVoided} := by decide
  have hdeleted : (Registry.run decorators).bus.eventFuncs .yourAggregateDeleted = ∅ := by decide
  have hupdated : (Registry.run decorators).bus.eventFuncs .yourAggregateUpdated = ∅ := by decide
  unfold eventClass at h
  unfold handlers Method.body
  generalize event.body = body at h ⊢
  cases body with
  | yourAggregateCreated id v d =>
    rw [hcreated] at h
    rw [iterates_singleton h]
    rfl
  | yourAggregateVoided id d =>
    rw [hvoided] at h
    rw [iterates_singleton h]
    rfl
  | yourAggregateDeleted id d =>
    rw [hdeleted] at h
    rw [iterates_empty h]
    rfl
  | yourAggregateUpdated id v d =>
    rw [hupdated] at h
    rw [iterates_empty h]
    rfl

end YourAggregateEventHandler

end DddService
