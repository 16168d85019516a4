/-
A run with a state of its own does on the machine what it does without.

`MonadHost` reaches through `StateT`, so that everything here can be run
with a list of outcomes at its side. What asks the machine alone does not
see that list: it is the same run, lifted (`provisionOne_lift`). So what is
known of a turn on a machine is known of it in every such run.
-/
import TlsKeystore.Provision

namespace TlsKeystore

variable {σ α β : Type} {m : Type → Type} [Monad m] [LawfulMonad m]

theorem lift_pure (a : α) :
    (StateT.lift (pure a) : StateT σ m α) = pure a := by
  refine StateT.ext fun s => ?_
  rw [StateT.run_lift, pure_bind, StateT.run_pure]

theorem lift_bind (x : m α) (f : α → m β) :
    (StateT.lift (x >>= f) : StateT σ m β)
      = StateT.lift x >>= fun a => StateT.lift (f a) := by
  refine StateT.ext fun s => ?_
  simp only [StateT.run_lift, StateT.run_bind, bind_assoc, pure_bind]

variable [MonadHost m]

namespace Store

theorem settled_lift (path : String) (made : Except FileFault Unit) :
    (settled path made : StateT σ m _) = StateT.lift (settled path made) := by
  cases made with
  | ok => exact (lift_pure _).symm
  | error fault =>
      unfold settled
      dsimp only
      rw [lift_bind]
      exact bind_congr fun _ => (lift_pure _).symm

/-- By induction on the directories that may be missing. -/
theorem createWithin_lift (steps : Nat) (path : String) :
    (createWithin steps path : StateT σ m _)
      = StateT.lift (createWithin steps path) := by
  induction steps generalizing path with
  | zero => exact (lift_pure _).symm
  | succ steps ih =>
      rw [createWithin, createWithin]
      split
      · exact (lift_pure _).symm
      · rw [lift_bind]
        refine bind_congr fun made => ?_
        split
        · next above _ =>
            rw [lift_bind, ih]
            refine bind_congr fun made => ?_
            cases made with
            | error fault => exact (lift_pure _).symm
            | ok =>
                dsimp only
                rw [lift_bind]
                exact bind_congr fun made => settled_lift path made
        · exact settled_lift path _

theorem ensureParent_lift (path : String) :
    (ensureParent path : StateT σ m _) = StateT.lift (ensureParent path) := by
  unfold ensureParent createDirectories
  split
  · rw [lift_bind, createWithin_lift]
    exact bind_congr fun _ => (lift_pure _).symm
  · exact (lift_pure _).symm

theorem write_lift (path : String) (der : Bytes) :
    (write path der : StateT σ m _) = StateT.lift (write path der) := by
  unfold write
  rw [lift_bind, ensureParent_lift]
  refine bind_congr fun made => ?_
  cases made with
  | error why => exact (lift_pure _).symm
  | ok =>
      dsimp only
      rw [lift_bind]
      exact bind_congr fun _ => (lift_pure _).symm

end Store

namespace Plan

theorem keeps_lift (p : Plan) (path : String) :
    (p.keeps path : StateT σ m _) = StateT.lift (p.keeps path) := by
  unfold keeps
  split
  · rfl
  · exact (lift_pure _).symm

theorem provisionOne_lift (p : Plan) (spec : IdentitySpec) :
    (p.provisionOne spec : StateT σ m _)
      = StateT.lift (p.provisionOne spec) := by
  unfold provisionOne
  dsimp only
  rw [lift_bind, keeps_lift]
  refine bind_congr fun kept => ?_
  split
  · exact (lift_pure _).symm
  · rw [lift_bind]
    refine bind_congr fun now => ?_
    rw [lift_bind]
    refine bind_congr fun made => ?_
    cases made with
    | error why => exact (lift_pure _).symm
    | ok der =>
        dsimp only
        rw [lift_bind, Store.write_lift]
        refine bind_congr fun stored => ?_
        cases stored <;> exact (lift_pure _).symm

end Plan
end TlsKeystore
