import OddsfoxExecution.Store.Journal
import OddsfoxExecution.Store.Run

/-!
# State changes and the audit trail

A transaction is audited when every intent and every order whose state it
changes is named by an event it appends.  Every operation of the store is, for
every input and in every database, except one: `transition_order` moves the
UNKNOWN intent of an order the venue turns out to have filled, cancelled or
expired to SUBMITTED and appends an event for the order alone.
`resolve_unknown_submission` makes the same move and appends both events.
-/

namespace OddsfoxExecution

/-- An event appended between the two databases that meets `names`. -/
def Db.Records (db db' : Db) (names : ExecutionEvent → Prop) : Prop :=
  ∃ later, db'.executionEvents = db.executionEvents ++ later ∧ ∃ e ∈ later, names e

/-- The law of the audit trail for a transaction that leads from one database to another. -/
structure Db.Audited (db db' : Db) : Prop where
  intents : ∀ id, db'.intentState id ≠ db.intentState id → db.Records db' (·.NamesIntent id)
  orders : ∀ id, db'.orderState id ≠ db.orderState id → db.Records db' (·.NamesOrder id)

theorem Db.Trail.audited {db db' : Db} {later : List ExecutionEvent} (h : db.Trail later db') :
    db.Audited db' where
  intents := fun id hne => ⟨later, h.events, h.intents id hne⟩
  orders := fun id hne => ⟨later, h.events, h.orders id hne⟩

theorem pruneEvents_audited {config : StoreConfig} {now : Time} {db : Db} {r : Committed Nat}
    (h : StoreCall.pruneEvents.run config now db = .ok r) : db.Audited r.db := by
  have hkept : r.db.intents = db.intents ∧ r.db.orders = db.orders := by
    simp only [StoreCall.run, pruneEvents] at h
    split at h
    · cases h
      exact ⟨rfl, rfl⟩
    · split at h <;> cases h <;> exact ⟨rfl, rfl⟩
  constructor
  · intro id hne
    exact absurd (intentState_eq hkept.1 id) hne
  · intro id hne
    exact absurd (orderState_eq hkept.2 id) hne

/-- The move that `transition_order` makes without naming the intent. -/
theorem not_audited_of_settles {config : StoreConfig} {now : Time} {db : Db} {call : StoreCall}
    {r : Committed call.Value} (h : call.run config now db = .ok r)
    (hsettles : call.SettlesUnknown db) : ¬ db.Audited r.db := by
  intro haudited
  cases call with
  | transitionOrder id next venueOrderId =>
    obtain ⟨k, hchanged, hsilent⟩ := transitionOrder_silent h hsettles
    obtain ⟨later, hlater, e, he, hnames⟩ := haudited.intents k hchanged
    exact hsilent later hlater e he hnames
  | _ => exact hsettles

/-- A committed transaction is audited unless it settles an UNKNOWN intent with its order. -/
theorem run_audited_iff {config : StoreConfig} {now : Time} {db : Db} {call : StoreCall}
    {r : Committed call.Value} (h : call.run config now db = .ok r) :
    db.Audited r.db ↔ ¬ call.SettlesUnknown db := by
  constructor
  · intro haudited hsettles
    exact not_audited_of_settles h hsettles haudited
  · intro hsettles
    by_cases hprune : call = .pruneEvents
    · subst hprune
      exact pruneEvents_audited h
    · obtain ⟨first, fill, -, htrail, -⟩ := StoreCall.run_trail h hprune hsettles
      exact htrail.audited

/-- The first admission is audited. -/
theorem run_audited_admission :
    ∃ r, (StoreCall.admitIntent "operator" "first" sampleRequest).run samplePaperStore 0
      ((StoreCall.setServiceState "system" .ready "startup checks passed" none none).after
        samplePaperStore 0 Db.initial) = .ok r ∧
      (Db.Audited ((StoreCall.setServiceState "system" .ready "startup checks passed" none
        none).after samplePaperStore 0 Db.initial) r.db) := by
  obtain ⟨r, hr⟩ : ∃ r, (StoreCall.admitIntent "operator" "first" sampleRequest).run
      samplePaperStore 0 ((StoreCall.setServiceState "system" .ready "startup checks passed" none
        none).after samplePaperStore 0 Db.initial) = .ok r := ⟨_, rfl⟩
  exact ⟨r, hr, (run_audited_iff hr).mpr fun hsettles => hsettles⟩

/-- The venue cancels an UNKNOWN order: its intent turns SUBMITTED and no event says so. -/
theorem settled_unknown_not_audited :
    ∃ db, Reachable samplePaperStore db ∧
      db.intentState 3 = some .unknown ∧
      ∃ r, (StoreCall.transitionOrder 7 .cancelled none).run samplePaperStore 0 db = .ok r ∧
        r.db.intentState 3 = some .submitted ∧ ¬ db.Audited r.db := by
  have hsample : ((play samplePaperStore 0 unknownSample Db.initial []).any fun reached =>
      reached.1.intentState 3 = some .unknown ∧
        (reached.1.order? 7).any (fun o => o.state = .unknown ∧ o.intentId = 3) ∧
        (((StoreCall.transitionOrder 7 .cancelled none).run samplePaperStore 0
          reached.1).toOption.any fun r => r.db.intentState 3 = some .submitted)) = true := by
    decide +kernel
  obtain ⟨db, past, -, hreachable, hsample⟩ := exists_of_play hsample
  obtain ⟨hunknown, horder, hrun⟩ := of_decide_eq_true hsample
  obtain ⟨o, ho, hstate⟩ := (Option.any_eq_true _ _).mp horder
  obtain ⟨hstate, howner⟩ := of_decide_eq_true hstate
  obtain ⟨r, hr, hsubmitted⟩ := (Option.any_eq_true _ _).mp hrun
  cases hresult : (StoreCall.transitionOrder 7 .cancelled none).run samplePaperStore 0 db with
  | error e => rw [hresult] at hr; cases hr
  | ok r' =>
    rw [hresult] at hr
    cases hr
    exact ⟨db, hreachable, hunknown, r, hresult, of_decide_eq_true hsubmitted,
      not_audited_of_settles hresult
        ⟨.inr (.inl rfl), o, ho, hstate, howner ▸ hunknown⟩⟩

end OddsfoxExecution
