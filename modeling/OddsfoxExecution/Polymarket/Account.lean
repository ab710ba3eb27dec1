import OddsfoxExecution.Library.Traces
import OddsfoxExecution.Polymarket.System

/-!
# What a reconciliation reads

`reconcile` lists the open orders, the trades and the positions of the account
page by page and asks for the allowance of every token that occurs.  The pages
it was answered with determine its result and its findings.
-/

namespace OddsfoxExecution

/-- The call leaves the generations, the cached books and the heartbeat alone and is no reply. -/
def PolymarketCall.plain : PolymarketCall → Bool
  | .client (.postHeartbeat _) | .setHeartbeatId _ | .bump _ | .load _ | .loadReconciled _
  | .storeReconciled .. | .updateBooks _ | .reply _ => false
  | _ => true

abbrev answered (call : ClientCall) (value : call.Value) : Sigma PolymarketCall.Answer :=
  ⟨.client call, .ok value⟩

/-- An action that makes only plain calls, and what its value says of them. -/
abbrev Plainly {α : Type} (x : VenueAction α) (Q : VenueCalls → α → Prop) : Prop :=
  Prog.Gives (fun c : PolymarketCall => c.plain = true) x Q

section Rules

variable {α β : Type}

theorem VenueAction.wp_performBind {c : PolymarketCall} {f : c.Answer → VenueAction β}
    {G : VenueCalls → PolymarketCall → Prop} {Q : VenueCalls → Except VenueError β → Prop}
    {made : VenueCalls} :
    (VenueAction.perform c >>= f).run.wp G Q made ↔
      G made c ∧ ∀ r, (f r).run.wp G Q (⟨c, r⟩ :: made) := by
  rw [Prog.wp_run_bind]
  exact Iff.rfl

theorem plainly_perform {c : PolymarketCall} (hc : c.plain = true) :
    Plainly (VenueAction.perform c) fun added r => added = [⟨c, r⟩] :=
  Prog.Gives.perform hc fun _ => rfl

theorem gives_client {K : PolymarketCall → Prop} {call : ClientCall} (hcall : K (.client call)) :
    Prog.Gives K (VenueAction.client call) fun added value => added = [answered call value] := by
  refine (Prog.Gives.perform (Q := fun added r => added = [⟨.client call, r⟩]) hcall
    fun _ => rfl).bind ?_
  rintro answer before rfl
  cases answer with
  | ok value => exact .pure rfl
  | error e => exact .throw

theorem plainly_client {call : ClientCall} (hcall : (PolymarketCall.client call).plain = true) :
    Plainly (VenueAction.client call) fun added value => added = [answered call value] :=
  gives_client hcall

theorem plainly_orThrow {ε : Type} {wrap : ε → VenueError} {r : Except ε α} :
    Plainly (VenueAction.orThrow wrap r) fun added value => added = [] ∧ r = .ok value := by
  cases r with
  | ok value => exact .pure ⟨rfl, rfl⟩
  | error e => exact .throw

theorem gives_withLock {K : PolymarketCall → Prop} {mutex : VenueLock} {x : VenueAction α}
    {Q : VenueCalls → α → Prop} (h : Prog.Gives K x Q) (hlock : K (.lock mutex))
    (hunlock : K (.unlock mutex)) :
    Prog.Gives K (VenueAction.withLock mutex x) fun _ _ => True := by
  refine (Prog.Gives.perform (Q := fun _ _ => True) hlock fun _ => trivial).bind fun _ _ _ => ?_
  refine h.attempt.bind fun result under hresult => ?_
  refine (Prog.Gives.perform (Q := fun _ _ => True) hunlock fun _ => trivial).bind fun _ _ _ => ?_
  cases result with
  | ok value => exact .pure trivial
  | error e => exact .throw

end Rules

/-! ## Pages -/

section Pages

variable {α : Type}

def Page.isLast (page : Page α) : Bool := page.nextCursor.isEmpty || page.nextCursor = "LTE="

/-- Pages with the cursors they were asked for with: each leads to the next. -/
def Chained : Option String → List (Option String × Page α) → Prop
  | _, [] => True
  | cursor, (asked, page) :: rest =>
    asked = cursor ∧ (rest ≠ [] → page.isLast = false) ∧ Chained (some page.nextCursor) rest

/-- A listing that was followed from its beginning: to a last page, or for `limit` pages. -/
structure Listed (limit : Nat) (cursor : Option String) (pages : List (Option String × Page α)) :
    Prop where
  chained : Chained cursor pages
  bounded : pages.length ≤ limit
  ended : pages.length < limit → ∃ last ∈ pages.getLast?, last.2.isLast = true

def rowsOf (pages : List (Option String × Page α)) : List α := pages.flatMap fun page => page.2.data

theorem Listed.nil {cursor : Option String} :
    Listed 0 cursor ([] : List (Option String × Page α)) :=
  ⟨trivial, Nat.le_refl 0, fun h => absurd h (Nat.lt_irrefl 0)⟩

theorem Listed.last {limit : Nat} {cursor : Option String} {page : Page α}
    (h : page.isLast = true) : Listed (limit + 1) cursor [(cursor, page)] where
  chained := ⟨rfl, fun hne => absurd rfl hne, trivial⟩
  bounded := by simp
  ended := fun _ => ⟨_, rfl, h⟩

/-- A page that is not the last goes on with the listing it leads to. -/
theorem Listed.cons {limit : Nat} {cursor : Option String} {page : Page α}
    {pages : List (Option String × Page α)} (hpage : page.isLast = false)
    (h : Listed limit (some page.nextCursor) pages) :
    Listed (limit + 1) cursor ((cursor, page) :: pages) where
  chained := ⟨rfl, fun _ => hpage, h.chained⟩
  bounded := Nat.succ_le_succ h.bounded
  ended := fun hlt => by
    obtain ⟨last, hlast, hends⟩ := h.ended (Nat.lt_of_succ_lt_succ hlt)
    refine ⟨last, ?_, hends⟩
    rw [List.getLast?_cons, Option.mem_def.mp hlast]
    rfl

theorem plainly_readPages {request : Option String → VenueAction (Page α)}
    {entry : Option String → Page α → Sigma PolymarketCall.Answer}
    (hrequest : ∀ cursor, Plainly (request cursor) fun added page => added = [entry cursor page])
    (limit : Nat) (cursor : Option String) :
    Plainly (readPages request limit cursor) fun added rows => ∃ pages,
      Listed limit cursor pages ∧ rows = rowsOf pages ∧
        added = (pages.map fun page => entry page.1 page.2).reverse := by
  induction limit generalizing cursor with
  | zero => exact .pure ⟨[], .nil, rfl, rfl⟩
  | succ limit ih =>
    refine (hrequest cursor).bind ?_
    rintro page before rfl
    split
    · rename_i hlast
      refine .pure ⟨[(cursor, page)], .last ?_, by simp [rowsOf], rfl⟩
      simpa [Page.isLast] using hlast
    · rename_i hlast
      refine (ih (some page.nextCursor)).bind ?_
      rintro rest added ⟨pages, hpages, rfl, rfl⟩
      refine .pure ⟨(cursor, page) :: pages, .cons ?_ hpages, by simp [rowsOf], by simp⟩
      simpa [Page.isLast] using hlast

end Pages

/-- The pages of positions: all but the last are full, and at most `limit` are asked for. -/
structure PositionsListed (limit : Nat) (pages : List (List SdkPosition)) : Prop where
  bounded : pages.length ≤ limit
  full : ∀ page ∈ pages.dropLast, 500 ≤ page.length
  ended : pages.length < limit → ∃ last ∈ pages.getLast?, last.length < 500

def positionRequests (user : String) : Nat → List (List SdkPosition) → VenueCalls
  | _, [] => []
  | pageIndex, page :: pages =>
    answered (.positions user (pageIndex * 500)) page :: positionRequests user (pageIndex + 1) pages

theorem plainly_readPositions (user : String) (left pageIndex : Nat) :
    Plainly (PolymarketVenue.readPositions user left pageIndex) fun added read => ∃ pages,
      PositionsListed (left + 1) pages ∧ read.1 = pages.flatten ∧
        read.2 = decide (pages.length = left + 1 ∧ ∀ page ∈ pages, 500 ≤ page.length) ∧
        added = (positionRequests user pageIndex pages).reverse := by
  induction left generalizing pageIndex with
  | zero =>
    refine (plainly_client rfl).bind ?_
    rintro page before rfl
    refine .pure ⟨[page], ⟨by simp, by simp, fun h => absurd h (by simp)⟩, by simp, by simp, rfl⟩
  | succ left ih =>
    refine (plainly_client rfl).bind ?_
    rintro page before rfl
    split
    · rename_i hshort
      have hfull : ¬ 500 ≤ page.length := Nat.not_le.mpr hshort
      refine .pure ⟨[page], ⟨by simp, by simp, fun _ => ⟨page, rfl, hshort⟩⟩, by simp, ?_, rfl⟩
      simp [hfull]
    · rename_i hshort
      have hfull : 500 ≤ page.length := Nat.not_lt.mp hshort
      refine (ih (pageIndex + 1)).bind ?_
      rintro ⟨rows, exceeded⟩ added ⟨pages, hpages, hrows, hexceeded, rfl⟩
      obtain rfl : rows = pages.flatten := hrows
      obtain rfl := hexceeded
      refine .pure ⟨page :: pages, ⟨Nat.succ_le_succ hpages.bounded, ?_, ?_⟩, by simp, ?_,
        by simp [positionRequests]⟩
      · intro other hother
        cases pages with
        | nil => simp at hother
        | cons next pages =>
          rcases List.mem_cons.mp hother with rfl | hother
          · exact hfull
          · exact hpages.full other hother
      · intro hlt
        obtain ⟨last, hlast, hends⟩ := hpages.ended (Nat.lt_of_succ_lt_succ hlt)
        refine ⟨last, ?_, hends⟩
        rw [List.getLast?_cons, Option.mem_def.mp hlast]
        rfl
      · simp [hfull]

/-! ## The account -/

def allowanceFinding (balance : Nat × BalanceAllowance) : Option String :=
  if balance.2.allowances.isEmpty then
    some s!"venue returned no conditional-token allowances for {balance.1}"
  else none

theorem plainly_checkAllowances (tokens : List Nat) :
    Plainly (PolymarketVenue.checkAllowances tokens) fun added findings =>
      ∃ balances : List (Nat × BalanceAllowance), balances.map Prod.fst = tokens ∧
        findings = balances.filterMap allowanceFinding ∧
        added = (balances.map fun balance =>
          answered (.balanceAllowance (.conditional balance.1)) balance.2).reverse := by
  induction tokens with
  | nil => exact .pure ⟨[], rfl, rfl, rfl⟩
  | cons tokenId rest ih =>
    refine (plainly_client rfl).bind ?_
    rintro conditional before rfl
    refine ih.bind ?_
    rintro findings added ⟨balances, rfl, rfl, rfl⟩
    split
    · rename_i hempty
      exact .pure ⟨(tokenId, conditional) :: balances, rfl, by simp [allowanceFinding, hempty],
        by simp⟩
    · rename_i hempty
      exact .pure ⟨(tokenId, conditional) :: balances, rfl, by simp [allowanceFinding, hempty],
        by simp⟩

/-- The answers a reconciliation is made of. -/
structure AccountAnswers where
  orderPages : List (Option String × Page SdkOrder)
  tradePages : List (Option String × Page SdkTrade)
  collateral : BalanceAllowance
  funder : String
  positionPages : List (List SdkPosition)
  balances : List (Nat × BalanceAllowance)

namespace AccountAnswers

variable (answers : AccountAnswers)

def orders : List SdkOrder := rowsOf answers.orderPages

def trades : List SdkTrade := rowsOf answers.tradePages

def positions : List SdkPosition := answers.positionPages.flatten

/-- The last page of positions the API serves was full. -/
def exceeded : Bool :=
  answers.positionPages.length = 21 ∧ ∀ page ∈ answers.positionPages, 500 ≤ page.length

/-- The requests that were answered so, in their order. -/
def requests : VenueCalls :=
  (answers.orderPages.map fun page => answered (.orders page.1) page.2) ++
    (answers.tradePages.map fun page => answered (.trades page.1) page.2) ++
    [answered (.balanceAllowance .collateral) answers.collateral] ++
    positionRequests answers.funder 0 answers.positionPages ++
    answers.balances.map fun balance =>
      answered (.balanceAllowance (.conditional balance.1)) balance.2

/-- The account was listed: every listing was followed to its end or its bound, and the allowance
of each token that occurs was asked for once. -/
structure Complete (self : PolymarketVenue) : Prop where
  orders : Listed 100 none answers.orderPages
  trades : Listed 100 none answers.tradePages
  positions : PositionsListed 21 answers.positionPages
  once : (answers.balances.map Prod.fst).Nodup
  tokens : ∀ token, token ∈ answers.balances.map Prod.fst ↔
    token ∈ self.tokenIds answers.orders answers.positions

/-- What `reconcile` makes of the answers. -/
def result : ReconciliationResult where
  observedOrders := answers.orders.map SdkOrder.observed
  observedTrades := answers.trades.filterMap fun trade => trade.observed.getRight?
  observedPositions := answers.positions.map SdkPosition.observed
  criticalFindings :=
    (answers.trades.filterMap fun trade => trade.observed.getLeft?) ++
      (if answers.collateral.allowances.isEmpty then
        ["venue returned no collateral allowances for the configured account"] else []) ++
      (if answers.exceeded then
        ["position reconciliation exceeded the Data API pagination bound"] else []) ++
      answers.balances.filterMap allowanceFinding

/-- Nothing in the answers is reported as a finding. -/
structure Clean : Prop where
  statuses : ∀ trade ∈ answers.trades, mapTradeStatus trade.status ≠ none
  collateral : answers.collateral.allowances ≠ []
  positions : ¬ (answers.positionPages.length = 21 ∧
    ∀ page ∈ answers.positionPages, 500 ≤ page.length)
  allowances : ∀ balance ∈ answers.balances, balance.2.allowances ≠ []

theorem criticalFindings_eq_nil_iff :
    answers.result.criticalFindings = [] ↔ answers.Clean := by
  have htrades : (answers.trades.filterMap fun trade => trade.observed.getLeft?) = [] ↔
      ∀ trade ∈ answers.trades, mapTradeStatus trade.status ≠ none := by
    rw [List.filterMap_eq_nil_iff]
    refine forall_congr' fun trade => imp_congr_right fun _ => ?_
    unfold SdkTrade.observed
    cases mapTradeStatus trade.status <;> simp
  have hallowances : answers.balances.filterMap allowanceFinding = [] ↔
      ∀ balance ∈ answers.balances, balance.2.allowances ≠ [] := by
    rw [List.filterMap_eq_nil_iff]
    refine forall_congr' fun balance => imp_congr_right fun _ => ?_
    simp [allowanceFinding]
  have hfinding : ∀ (raised : Bool) (text : String),
      (if raised = true then [text] else []) = [] ↔ raised = false := by
    intro raised text
    cases raised <;> simp
  have hexceeded : answers.exceeded = false ↔ ¬ (answers.positionPages.length = 21 ∧
      ∀ page ∈ answers.positionPages, 500 ≤ page.length) := decide_eq_false_iff_not
  simp only [result, List.append_eq_nil_iff, htrades, hallowances, hfinding, hexceeded]
  constructor
  · rintro ⟨⟨⟨hstatuses, hcollateral⟩, hpositions⟩, hrest⟩
    exact ⟨hstatuses, by simpa using hcollateral, hpositions, hrest⟩
  · rintro ⟨hstatuses, hcollateral, hpositions, hrest⟩
    exact ⟨⟨⟨hstatuses, by simpa using hcollateral⟩, hpositions⟩, hrest⟩

end AccountAnswers

variable {self : PolymarketVenue}

/-- What a read of the account left in the trace: the answers, and the order in which the tokens
were taken. -/
def ReadAs (self : PolymarketVenue) (answers : AccountAnswers) (added : VenueCalls) : Prop :=
  Listed 100 none answers.orderPages ∧ Listed 100 none answers.tradePages ∧
    PositionsListed 21 answers.positionPages ∧ (∀ e ∈ answers.requests, e ∈ added) ∧
    ⟨.hashOrder (self.tokenIds answers.orders answers.positions),
      answers.balances.map Prod.fst⟩ ∈ added

theorem plainly_readAccount :
    Plainly self.readAccount fun added read => ∃ answers : AccountAnswers,
      ReadAs self answers added ∧ read.result = answers.result := by
  unfold PolymarketVenue.readAccount
  refine (plainly_readPages (fun _ => plainly_client rfl) 100 none).bind ?_
  rintro _ _ ⟨orderPages, horders, rfl, rfl⟩
  refine (plainly_readPages (fun _ => plainly_client rfl) 100 none).bind ?_
  rintro _ _ ⟨tradePages, htrades, rfl, rfl⟩
  refine (plainly_client rfl).bind ?_
  rintro collateral _ rfl
  split
  · exact .throw
  · refine plainly_orThrow.bind ?_
    rintro funder _ ⟨rfl, -⟩
    refine (plainly_readPositions funder 20 0).bind ?_
    rintro ⟨_, _⟩ _ ⟨positionPages, hpositions, hrows, hexceeded, rfl⟩
    obtain rfl := hrows
    obtain rfl := hexceeded
    refine (plainly_perform rfl).bind ?_
    rintro tokens _ rfl
    refine (plainly_checkAllowances tokens).bind ?_
    rintro _ _ ⟨balances, rfl, rfl, rfl⟩
    let answers : AccountAnswers :=
      ⟨orderPages, tradePages, collateral, funder, positionPages, balances⟩
    refine .pure ⟨answers, ⟨horders, htrades, hpositions, ?_, ?_⟩, ?_⟩
    · intro e he
      simp only [AccountAnswers.requests, answers, List.mem_append, List.mem_singleton] at he
      simp only [List.mem_append, List.mem_reverse, List.mem_singleton, List.nil_append]
      tauto
    · simp [answers, AccountAnswers.orders, AccountAnswers.positions]
    · rfl

end OddsfoxExecution
