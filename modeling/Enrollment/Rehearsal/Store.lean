import Enrollment.Issuing.Store
import Enrollment.Keyed

/-! # Scripted stores

A store in memory. It can be told which requests fail, and how often the inventory does.
-/

namespace Enrollment.Rehearsal

structure ScriptedStore where
  certificates : Keyed Int CertificateRecord
  orders : Keyed Int OrderRecord
  managed : List ManagedCertificate
  /-- The reason for which a request fails, if it does. -/
  failure : StoreRequest → Option String
  failingLoads : Nat
  /-- How often the inventory was asked for. -/
  loads : Nat
  /-- The states that orders were stored in, each with its time. -/
  updates : List (Nat × Int × OrderStatus)
  invalid : Keyed Int Unit
  saved : Keyed Int CertificateChain

namespace ScriptedStore

/-- A store without anything in it, in which no request fails. -/
def empty : ScriptedStore where
  certificates := .empty
  orders := .empty
  managed := []
  failure _ := none
  failingLoads := 0
  loads := 0
  updates := []
  invalid := .empty
  saved := .empty

def found {α : Type} (what : Stored) (id : Int) : Option α → Except StoreError α
  | some a => .ok a
  | none => .error (.notFound what id)

/-- Ids count on from the largest one. -/
def nextOrderId (store : ScriptedStore) : Int := store.orders.keys.foldl max 0 + 1

def insert (store : ScriptedStore) (certificate : Int) (order : Order) :
    Except StoreError Int × ScriptedStore :=
  match order.location with
  | none => (.error (.backend "no location"), store)
  | some location =>
    let id := store.nextOrderId
    (.ok id, { store with orders := store.orders.put id ⟨id, certificate, location⟩ })

def carryOut (now : Nat) : (request : StoreRequest) → ScriptedStore →
    request.Answer × ScriptedStore
  | .certificate id, store => (found .certificate id (store.certificates.get? id), store)
  | .order id, store => (found .order id (store.orders.get? id), store)
  | .insertOrder certificate order, store => store.insert certificate order
  | .updateOrder id order, store =>
    (.ok (), { store with updates := store.updates ++ [(now, id, order.status)] })
  | .markOrderInvalid id, store => (.ok (), { store with invalid := store.invalid.put id () })
  | .saveCertificate id chain, store =>
    (.ok (), { store with saved := store.saved.put id chain })
  | .managedCertificates, store =>
    if store.loads ≤ store.failingLoads then (.error (.backend "inventory unavailable"), store)
    else (.ok store.managed, store)

def counted : StoreRequest → ScriptedStore → ScriptedStore
  | .managedCertificates, store => { store with loads := store.loads + 1 }
  | _, store => store

def handle (now : Nat) (request : StoreRequest) (store : ScriptedStore) :
    request.Answer × ScriptedStore :=
  let store := counted request store
  match store.failure request with
  | some reason => (.error (.backend reason), store)
  | none => carryOut now request store

/-- The states of an order in the order in which they were stored. -/
def statuses (store : ScriptedStore) (id : Int) : List OrderStatus :=
  store.updates.filterMap fun (_, order, status) => if order = id then some status else none

/-- The orders by the time at which they were first stored. -/
def processed (store : ScriptedStore) : List (Nat × Int) :=
  store.updates.foldl (fun seen (time, id, _) =>
    if seen.any (·.2 = id) then seen else seen ++ [(time, id)]) []

end ScriptedStore

end Enrollment.Rehearsal
