import Mathlib.Data.List.Perm.Basic
import Zay.Inbound.TunRoute

/-! The lease of the installed routes. A route leaves the list before it is removed, so that the
lease forgets the routes whose removal fails.
-/

namespace Zay.Inbound

open Net List

/-- What `install` and `close` report, with the errors of the backend. -/
inductive LeaseError (ε : Type) where
  | alreadyInstalled
  | add (route : IpNet) (error : ε) (rollback : List (IpNet × ε))
  | remove (failures : List (IpNet × ε))

/-- A lease with the routes it has put into the system, the newest first. -/
structure TunRouteLease where
  installed : List IpNet := []
  system : List IpNet := []
  /-- How often the backend was called. -/
  calls : Nat := 0
  /-- The routes that were to be removed, in order. -/
  attempts : List IpNet := []
  /-- Those whose removal failed. -/
  failed : List IpNet := []

inductive LeaseCall where
  | install (plan : TunRoutePlan)
  | close

namespace TunRouteLease

section

-- The error of each call of the backend, if it fails.
variable {ε : Type} (outcome : Nat → Option ε)

def removeAll (lease : TunRouteLease) : List IpNet → List (IpNet × ε) × TunRouteLease
  | [] => ([], { lease with installed := [] })
  | route :: routes =>
    let next := { lease with calls := lease.calls + 1, attempts := lease.attempts ++ [route] }
    match outcome lease.calls with
    | none => removeAll { next with system := lease.system.erase route } routes
    | some error =>
      let (failures, final) := removeAll { next with failed := route :: lease.failed } routes
      ((route, error) :: failures, final)

/-- The loop of `install`. -/
def addAll (lease : TunRouteLease) : List IpNet → Except (LeaseError ε) Unit × TunRouteLease
  | [] => (.ok (), lease)
  | route :: routes =>
    let next := { lease with calls := lease.calls + 1 }
    match outcome lease.calls with
    | none =>
      addAll { next with
        system := route :: lease.system
        installed := route :: lease.installed } routes
    | some error =>
      let (rollback, final) := next.removeAll outcome lease.installed
      (.error (.add route error rollback), final)

def install (lease : TunRouteLease) (plan : TunRoutePlan)
    : Except (LeaseError ε) Unit × TunRouteLease :=
  if lease.installed = [] then lease.addAll outcome plan.routes
  else (.error .alreadyInstalled, lease)

def close (lease : TunRouteLease) : Except (LeaseError ε) Unit × TunRouteLease :=
  let (failures, final) := lease.removeAll outcome lease.installed
  (if failures.isEmpty then .ok () else .error (.remove failures), final)

def step (lease : TunRouteLease) : LeaseCall → TunRouteLease
  | .install plan => (lease.install outcome plan).2
  | .close => (lease.close outcome).2

def after (calls : List LeaseCall) : TunRouteLease := calls.foldl (step outcome) {}

end

/-- The system has the installed routes and those whose removal failed. -/
def Accounted (lease : TunRouteLease) : Prop :=
  lease.system.Perm (lease.installed ++ lease.failed)

variable {ε : Type} {outcome : Nat → Option ε} {lease : TunRouteLease}

theorem removeAll_spec {routes} (h : lease.system.Perm (routes ++ lease.failed))
    : (lease.removeAll outcome routes).2.Accounted
      ∧ (lease.removeAll outcome routes).2.attempts = lease.attempts ++ routes := by
  induction routes generalizing lease with
  | nil => exact ⟨h, (append_nil _).symm⟩
  | cons route routes ih =>
    rw [append_cons]
    cases called : outcome lease.calls with
    | none =>
      simp only [removeAll, called]
      exact ih (by simpa using h.erase route)
    | some _ =>
      simp only [removeAll, called]
      exact ih (h.trans perm_middle.symm)

theorem accounted_addAll (h : lease.Accounted) (routes)
    : (lease.addAll outcome routes).2.Accounted := by
  induction routes generalizing lease with
  | nil => exact h
  | cons route routes ih =>
    cases called : outcome lease.calls with
    | none =>
      simp only [addAll, called]
      exact ih (h.cons route)
    | some _ =>
      simp only [addAll, called]
      refine (removeAll_spec ?_).1
      exact h

theorem accounted_after (outcome : Nat → Option ε) (calls) : (after outcome calls).Accounted := by
  refine foldlRecOn calls _ (show Accounted {} from .nil) fun _ h call _ => ?_
  cases call with
  | install plan =>
    rw [step, install]
    split
    · exact accounted_addAll h plan.routes
    · exact h
  | close => exact (removeAll_spec h).1

/-- The list holds what the lease has added and not removed as long as no removal has failed. A
close tries to remove what the list holds, the newest route first.
-/
theorem installed_perm_iff (outcome : Nat → Option ε) (calls : List LeaseCall)
    : ((after outcome calls).installed.Perm (after outcome calls).system
        ↔ (after outcome calls).failed = [])
      ∧ (after outcome (calls ++ [.close])).attempts
        = (after outcome calls).attempts ++ (after outcome calls).installed := by
  have h := accounted_after outcome calls
  refine ⟨⟨fun he => ?_, fun none => ?_⟩, ?_⟩
  · have hl := (he.trans h).length_eq
    rw [length_append] at hl
    exact length_eq_zero_iff.mp (by omega)
  · rw [Accounted, none, append_nil] at h
    exact h.symm
  · rw [after, foldl_append]
    exact (removeAll_spec h).2

/-- A route is installed and removed twice, and the first removal fails. -/
def failedRemoval : TunRouteLease :=
  after (fun call => if call = 1 then some () else none)
    [.install ⟨[.v4 { addr := 0x0a000001, prefixLen := Fin.last 32 }]⟩, .close, .close]

/-- The route stays in the system, and the second close does not try to remove it. -/
theorem failedRemoval_forgotten
    : failedRemoval.installed = [] ∧ failedRemoval.system.length = 1
      ∧ failedRemoval.attempts.length = 1 := by
  decide

end TunRouteLease

end Zay.Inbound
