import CppLab.Env.SharedPtr
import CppLab.Env.StdInsert
import CppLab.Lib.Lockstep

/-!
# A configuration that is shared

`AppConfig` and what uses it: `NetworkManager` and `Logger`, which share it, and
`validatePointer`, which looks at it through a weak pointer. A program is any sequence of
these actions; the two `run()` are such programs.

The actions are written over the operations on pointers, and are run both on control
blocks with counts and on `Sharing`, which has none; they write to `std::cout`.
`program_refines` says that nobody can see the difference, and `config_lifetime` what the
counts are for.
-/

namespace CppLab.SmartPointer

open IStream (insertInt Write)
open SharedPtr

structure AppConfig where
  server : Bytes
  port : Int32
  deriving DecidableEq, Repr

def AppConfig.setPort (c : AppConfig) (p : Int32) : AppConfig := { c with port := p }

/-- The shared pointers: `config` in a block, the member `config_` of an object, and `tmp`. -/
inductive Holder where
  | config (n : Nat)
  | net (n : Nat)
  | logger (n : Nat)
  | tmp
  deriving DecidableEq, Repr

inductive Action where
  | make_shared (n p : Nat) (server : Bytes) (port : Int32)
  | setPort (n : Nat) (p : Int32)
  | use_count (n : Nat) (text : Bytes)
  | endConfig (n : Nat)
  | NetworkManager (n config : Nat)
  | connect (n : Nat)
  | endNetworkManager (n : Nat)
  | Logger (n config : Nat)
  | log_start (n : Nat)
  | endLogger (n : Nat)
  | observe (w config : Nat)
  | expired (w : Nat)
  | validatePointer (w : Nat)
  | endObserver (w : Nat)
  deriving DecidableEq, Repr

def boolalpha (b : Bool) : Bytes := ascii (if b then "true" else "false")

def AppConfig.connecting (c : AppConfig) : Bytes :=
  ascii "Connecting to " ++ c.server ++ ascii ":" ++ insertInt c.port.toInt ++ ascii "\n"

def AppConfig.logging (c : AppConfig) : Bytes :=
  ascii "Logging enabled for " ++ c.server ++ ascii "\n"

def AppConfig.value (c : AppConfig) : Bytes :=
  ascii "config value is: " ++ insertInt c.port.toInt ++ ascii " " ++ c.server

def owners (text : Bytes) (n : Nat) : Bytes := text ++ insertInt n ++ ascii "\n"

section

variable {σ : Type*} (api : Api σ Holder Nat AppConfig)

/-- A shared pointer is destroyed, and `~AppConfig` runs when it was the last. -/
def endHolder (s : σ) (out : List Write) (o : Holder) : Option (σ × List Write) :=
  (api.release s o).map fun (s, last) =>
    (s, if last.isSome then out ++ [.put (ascii "Config destroyed\n")] else out)

/-- `validatePointer(wp)`. -/
def validatePointer (s : σ) (out : List Write) (w : Nat) : Option (σ × List Write) :=
  (api.lock s .tmp w).bind fun s =>
    if api.null s .tmp then
      endHolder api s (out ++ [.LOG (ascii "config is expired")]) .tmp
    else
      (api.get s .tmp).bind fun c => endHolder api s (out ++ [.LOG c.value]) .tmp

def step : σ × List Write → Action → Option (σ × List Write)
  | (s, out), .make_shared n p server port =>
      (api.make s (.config n) p ⟨server, port⟩).map fun s =>
        (s, out ++ [.put (ascii "Config loaded\n")])
  | (s, out), .setPort n p =>
      (api.get s (.config n)).bind fun c =>
        (api.set s (.config n) (c.setPort p)).map fun s => (s, out)
  | (s, out), .use_count n text =>
      (api.use_count s (.config n)).map fun count => (s, out ++ [.put (owners text count)])
  | (s, out), .endConfig n => endHolder api s out (.config n)
  | (s, out), .NetworkManager n config =>
      (api.copy s (.net n) (.config config)).map fun s => (s, out)
  | (s, out), .connect n => (api.get s (.net n)).map fun c => (s, out ++ [.put c.connecting])
  | (s, out), .endNetworkManager n => endHolder api s out (.net n)
  | (s, out), .Logger n config =>
      (api.copy s (.logger n) (.config config)).map fun s => (s, out)
  | (s, out), .log_start n => (api.get s (.logger n)).map fun c => (s, out ++ [.put c.logging])
  | (s, out), .endLogger n =>
      endHolder api s (out ++ [.put (ascii "Logger destroyed\n")]) (.logger n)
  | (s, out), .observe w config => (api.observe s w (.config config)).map fun s => (s, out)
  | (s, out), .expired w =>
      (api.expired s w).map fun e =>
        (s, out ++ [.put (ascii "expired? " ++ boolalpha e ++ ascii "\n")])
  | (s, out), .validatePointer w => validatePointer api s out w
  | (s, out), .endObserver w => (api.forget s w).map fun s => (s, out)

end

/-- With control blocks. -/
def program : System (Store Holder Nat AppConfig × List Write) Action where
  init := (.empty, [])
  step := step Store.api

/-- With sharing only. -/
noncomputable def ideal : System (Sharing Holder Nat AppConfig × List Write) Action where
  init := (Store.empty.abs, [])
  step := step Sharing.api

def Shared.owners : Bytes := ascii "The number of owners (shared_ptr) - use_count: "

/-- `run()` of the example of shared pointers. -/
def Shared.run : List Action :=
  [.make_shared 0 0 (ascii "test.server.com") 80, .NetworkManager 0 0, .Logger 0 0, .connect 0,
    .log_start 0, .use_count 0 Shared.owners, .setPort 0 8080, .connect 0, .log_start 0,
    .endLogger 0, .use_count 0 Shared.owners, .endNetworkManager 0, .use_count 0 Shared.owners,
    .endConfig 0]

/-- `run()` of the example of weak pointers. -/
def Weak.run : List Action :=
  [.make_shared 0 0 (ascii "test.server.com") 80, .observe 0 0, .use_count 0 (ascii "use_count: "),
    .expired 0, .validatePointer 0, .endConfig 0, .expired 0, .validatePointer 0, .endObserver 0]

/-! ## Both do the same -/

/-- The counts are right, and the same has been written. -/
def Same (s : Store Holder Nat AppConfig × List Write)
    (t : Sharing Holder Nat AppConfig × List Write) : Prop :=
  Agree s.1 t.1 ∧ s.2 = t.2

section

variable {s : Store Holder Nat AppConfig} {out : List Write}

theorem endHolder_agree (counted : Counted s) (out : List Write) (o : Holder) :
    Option.Rel Same (endHolder Store.api s out o) (endHolder Sharing.api s.abs out o) := by
  refine rel_map (release_agree counted o) fun r u both => ?_
  obtain ⟨s', last⟩ := r
  obtain ⟨t', last'⟩ := u
  obtain ⟨agree, rfl⟩ := both
  exact ⟨agree, rfl⟩

theorem validatePointer_agree (counted : Counted s) (out : List Write) (w : Nat) :
    Option.Rel Same (validatePointer Store.api s out w)
      (validatePointer Sharing.api s.abs out w) := by
  refine rel_bind (lock_agree counted .tmp w) fun s' t' agree => ?_
  obtain ⟨counted', rfl⟩ := agree
  show Option.Rel Same (if (s'.shared .tmp).isNone then _ else _)
    (if (s'.shared .tmp).isNone then _ else _)
  split
  · exact endHolder_agree counted' _ _
  · show Option.Rel Same ((s'.get .tmp).bind _) ((s'.get .tmp).bind _)
    cases s'.get .tmp with
    | none => exact .none
    | some c => exact endHolder_agree counted' _ _

/-- One action. -/
theorem step_agree {r : Store Holder Nat AppConfig × List Write}
    {u : Sharing Holder Nat AppConfig × List Write} (same : Same r u) (a : Action) :
    Option.Rel Same (step Store.api r a) (step Sharing.api u a) := by
  obtain ⟨s, out⟩ := r
  obtain ⟨t, out'⟩ := u
  obtain ⟨⟨counted, rfl⟩, rfl⟩ := same
  -- what changes pointers, and what looks at the object
  have changes : ∀ {x y} (line : List Write), Option.Rel Agree x y →
      Option.Rel Same (x.map fun s => (s, line)) (y.map fun s => (s, line)) := fun line agree =>
    rel_map agree fun _ _ agree => ⟨agree, rfl⟩
  have looks : ∀ {γ : Type} (x : Option γ) (lines : γ → List Write),
      Option.Rel Same (x.map fun c => (s, lines c)) (x.map fun c => (s.abs, lines c)) := by
    intro γ x lines
    cases x with
    | none => exact .none
    | some c => exact .some ⟨⟨counted, rfl⟩, rfl⟩
  cases a with
  | make_shared n p server port => exact changes _ (make_agree counted _ p _)
  | setPort n p =>
      show Option.Rel Same ((s.get (.config n)).bind _) ((s.get (.config n)).bind _)
      cases s.get (.config n) with
      | none => exact .none
      | some c => exact changes out (set_agree counted _ (c.setPort p))
  | use_count n text =>
      have agree : Sharing.api.use_count s.abs (.config n) = Store.api.use_count s (.config n) :=
        (use_count_agree counted _).symm
      simp only [step, agree]
      exact looks _ fun count => out ++ [.put (owners text count)]
  | endConfig n => exact endHolder_agree counted _ _
  | NetworkManager n config => exact changes out (copy_agree counted _ _)
  | connect n => exact looks (s.get (.net n)) fun c => out ++ [.put c.connecting]
  | endNetworkManager n => exact endHolder_agree counted _ _
  | Logger n config => exact changes out (copy_agree counted _ _)
  | log_start n => exact looks (s.get (.logger n)) fun c => out ++ [.put c.logging]
  | endLogger n => exact endHolder_agree counted _ _
  | observe w config => exact changes out (observe_agree counted w _)
  | expired w =>
      have agree : Sharing.api.expired s.abs w = Store.api.expired s w :=
        (expired_agree counted w).symm
      simp only [step, agree]
      exact looks _ fun e => out ++ [.put (ascii "expired? " ++ boolalpha e ++ ascii "\n")]
  | validatePointer w => exact validatePointer_agree counted out w
  | endObserver w => exact changes out (forget_agree counted w)

end

theorem run_agree (as : List Action) : Option.Rel Same (program.run as) (ideal.run as) :=
  System.rel_run ⟨⟨counted_empty, rfl⟩, rfl⟩ (fun _ _ a same => step_agree same a) as

theorem counted_run {as : List Action} {s : Store Holder Nat AppConfig} {out : List Write}
    (h : program.run as = some (s, out)) : Counted s := by
  have agree := run_agree as
  rw [h] at agree
  generalize ideal.run as = r at agree
  cases agree with
  | some same => exact same.1.1

/-- With counts a program does what it does with sharing: the same programs can be run, they
write the same, and the same is shared afterwards. -/
theorem program_refines (as : List Action) :
    (program.run as).map (fun (s, out) => (s.abs, out)) = ideal.run as :=
  map_eq_of_rel (run_agree as) fun _ _ same => Prod.ext same.1.2.symm same.2

/-- A configuration that nothing shares any more has been destroyed once; one that is
shared has not been destroyed; when nothing is shared all have been destroyed exactly once,
and there is nothing left when there are no pointers. -/
theorem config_lifetime {as : List Action} {s : Store Holder Nat AppConfig} {out : List Write}
    (h : program.run as = some (s, out)) :
    Ledger.AtMostOnce s.ledger ∧
      (∀ pre p post, s.ledger = pre ++ .opened p :: post → (∀ o, s.shared o ≠ some p) →
        Ledger.closesOf p post = 1) ∧
      (∀ o p, s.shared o = some p → s.abs.object p ≠ none) ∧
      ((∀ o, s.shared o = none) → Ledger.ExactlyOnce s.ledger) ∧
      ((∀ o, s.shared o = none) → (∀ w, s.weak w = none) → ∀ p, s.block p = none) := by
  have counted := counted_run h
  obtain ⟨names, replay, open_⟩ := counted.book
  refine ⟨Ledger.atMostOnce_of_replay replay, ?_, ?_, ?_, ?_⟩
  · intro pre p post split nobody
    rw [split] at replay
    refine Ledger.closesOf_eq_one replay fun member => ?_
    obtain ⟨o, there⟩ := counted.object_iff.mp ((open_ p).mp member)
    exact nobody o there
  · exact fun o p there => counted.object_iff.mpr ⟨o, there⟩
  · intro noShared
    have closed : names = [] := by
      apply List.eq_nil_iff_forall_not_mem.mpr
      intro p member
      obtain ⟨o, there⟩ := counted.object_iff.mp ((open_ p).mp member)
      rw [noShared o] at there
      cases there
    rw [closed] at replay
    exact Ledger.exactlyOnce_of_replay replay
  · intro noShared noWeak p
    exact counted.free_iff.mpr ⟨fun o => by simp [noShared o], fun w => by simp [noWeak w]⟩

theorem config_lifetime_shared : ∃ s out, program.run Shared.run = some (s, out) ∧
    Ledger.ExactlyOnce s.ledger := by
  have ends : program.run Shared.run = some (_, _) := rfl
  refine ⟨_, _, ends, (config_lifetime ends).2.2.2.1 ?_⟩
  intro o
  cases o with
  | config n =>
      cases n with
      | zero => rfl
      | succ n => rfl
  | net n =>
      cases n with
      | zero => rfl
      | succ n => rfl
  | logger n =>
      cases n with
      | zero => rfl
      | succ n => rfl
  | tmp => rfl

example : (program.run Weak.run).map (·.2) = some
    [.put (ascii "Config loaded\n"), .put (ascii "use_count: 1\n"),
      .put (ascii "expired? false\n"), .LOG (ascii "config value is: 80 test.server.com"),
      .put (ascii "Config destroyed\n"), .put (ascii "expired? true\n"),
      .LOG (ascii "config is expired")] := by
  decide

end CppLab.SmartPointer
