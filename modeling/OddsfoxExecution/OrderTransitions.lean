import OddsfoxExecution.Store.Registry

/-!
# The log of order transitions

`order_transitions` tells how every order came to its state: its rows for one
order, in the order of their identifiers, form a path that starts at PREPARED,
goes on where it left off and ends at the state the order is in.  Eight
operations write the log, three of them prior states that are fixed in the
statement.
-/

namespace OddsfoxExecution

/-- The rows lead from one state to another, each from where the one before it led. -/
def Walk : OrderState → List OrderTransition → OrderState → Prop
  | start, [], last => start = last
  | start, row :: rows, last => row.priorState = start ∧ Walk row.newState rows last

theorem Walk.append {start middle last : OrderState} {rows : List OrderTransition}
    (h : Walk start rows middle) {row : OrderTransition} (hprior : row.priorState = middle)
    (hlast : row.newState = last) : Walk start (rows ++ [row]) last := by
  induction rows generalizing start with
  | nil =>
    obtain rfl : start = middle := h
    exact ⟨hprior, hlast⟩
  | cons first rows ih => exact ⟨h.1, ih h.2⟩

def transitionsOf (id : Uuid) (log : List OrderTransition) : List OrderTransition :=
  log.filter fun row => row.orderId = id

theorem transitionsOf_append_self {id : Uuid} {log : List OrderTransition} {row : OrderTransition}
    (hrow : row.orderId = id) :
    transitionsOf id (log ++ [row]) = transitionsOf id log ++ [row] := by
  simp [transitionsOf, hrow]

theorem transitionsOf_append_of_ne {id : Uuid} {log : List OrderTransition} {row : OrderTransition}
    (hrow : row.orderId ≠ id) : transitionsOf id (log ++ [row]) = transitionsOf id log := by
  simp [transitionsOf, hrow]

/-! ## What a step of the registry keeps -/

/-- The log leads every order to its state and speaks of no other orders. -/
structure Registry.Traced (r : Registry) : Prop where
  walk : ∀ f ∈ r.files, Walk .prepared (transitionsOf f.id r.log) f.order
  known : ∀ row ∈ r.log, ∃ f ∈ r.files, f.id = row.orderId

theorem RegistryStep.traced {M : OrderFile → OrderFile → Prop} {r r' : Registry}
    (hstep : RegistryStep M r r') (h : r.Traced) : r'.Traced := by
  cases hstep with
  | @opened f hfresh hstates =>
    constructor
    · intro g hg
      rcases List.mem_append.mp hg with hg | hg
      · exact h.walk g hg
      · -- the log has no row of an order that was not there
        have hnone : transitionsOf f.id r.log = [] := by
          apply List.filter_eq_nil_iff.mpr
          intro row hrow hid
          obtain ⟨g, hg, hgid⟩ := h.known row hrow
          exact hfresh g hg (hgid.trans (of_decide_eq_true hid))
        obtain rfl := List.mem_singleton.mp hg
        rw [hnone]
        exact (congrArg (fun states => states.2.1) hstates).symm
    · intro row hrow
      obtain ⟨g, hg, hid⟩ := h.known row hrow
      exact ⟨g, List.mem_append_left _ hg, hid⟩
  | @moved f f' hf hid hmove =>
    constructor
    · intro g hg
      rcases Table.mem_replace.mp hg with ⟨hg, hne⟩ | ⟨rfl, -⟩
      · have hother : f.id ≠ g.id := fun heq => hne (heq.symm.trans hid.symm)
        rw [transitionsOf_append_of_ne hother]
        exact h.walk g hg
      · rw [transitionsOf_append_self hid.symm, hid]
        exact (h.walk f hf).append rfl rfl
    · intro row hrow
      have hthere : ∃ g ∈ r.files, g.id = row.orderId := by
        rcases List.mem_append.mp hrow with hrow | hrow
        · exact h.known row hrow
        · rw [List.mem_singleton.mp hrow]
          exact ⟨f, hf, rfl⟩
      obtain ⟨g, hg, hgid⟩ := hthere
      by_cases hsame : g.id = f'.id
      · exact ⟨f', Table.mem_replace.mpr (Or.inr ⟨rfl, g, hg, hsame⟩), hsame.symm.trans hgid⟩
      · exact ⟨g, Table.mem_replace.mpr (Or.inl ⟨hg, hsame⟩), hgid⟩

theorem RegistrySteps.traced {M : OrderFile → OrderFile → Prop} {r r' : Registry}
    (hsteps : RegistrySteps M r r') (h : r.Traced) : r'.Traced := by
  induction hsteps with
  | refl => exact h
  | tail _ hstep ih => exact hstep.traced ih

theorem StoreRun.traced {config : StoreConfig} {guard : StoreCall → Db → Prop} {db : Db}
    {past : List Db} (h : StoreRun config guard db past) : db.registry.Traced := by
  induction h with
  | initial =>
    constructor
    · exact fun f hf => absurd hf List.not_mem_nil
    · exact fun row hrow => absurd hrow List.not_mem_nil
  | call call now hrun hallowed _ ih =>
    exact (call.after_registry hrun.leads config now hallowed).traced ih
  | venue _ hframe ih => exact hframe.registry_eq ▸ ih

/-- In every reachable database the rows of an order lead from PREPARED to the order's state. -/
theorem Reachable.transitions_walk {config : StoreConfig} {db : Db} (h : Reachable config db)
    {o : OrderRecord} (ho : o ∈ db.orders) :
    Walk .prepared (transitionsOf o.id db.orderTransitions) o.state := by
  obtain ⟨past, hrun⟩ := h
  exact hrun.traced.walk (db.file o) (List.mem_map_of_mem ho)

/-- The order of a submission that nobody answered, after the recovery. -/
theorem transitions_walk_recovered :
    ∃ db, Reachable samplePaperStore db ∧ ∃ o ∈ db.orders, o.state = .unknown ∧
      Walk .prepared (transitionsOf o.id db.orderTransitions) o.state := by
  have hsample : ((play samplePaperStore 0 (readySample ++ prepareSample "first" 3 ++
      [.beginSubmission 3 7, .recoverInterruptedSubmissions]) Db.initial []).any fun reached =>
        reached.1.orders.any fun o => o.state = .unknown) = true := by
    decide +kernel
  obtain ⟨db, past, -, hreachable, hsample⟩ := exists_of_play hsample
  obtain ⟨o, ho, hstate⟩ := List.any_eq_true.mp hsample
  exact ⟨db, hreachable, o, ho, of_decide_eq_true hstate, hreachable.transitions_walk ho⟩

end OddsfoxExecution
