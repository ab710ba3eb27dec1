import OddsfoxExecution.Store.Frames

/-!
# Final trade states

CONFIRMED and FAILED are the terminal states of a trade (section 9.4 of the
product specification).  `record_venue_trade_finality` is the only operation
that writes the recorded status of a venue trade.  It compares the observation
with what is recorded only to skip a repetition: any other observation is
written over the recorded status, whatever that status is.
-/

namespace OddsfoxExecution

/-- The terminal states of section 9.4. -/
def TradeState.final : TradeState → Bool
  | .confirmed | .failed => true
  | _ => false

/-- A trade of the order has the venue trade among its components. -/
def Db.Linked (db : Db) (orderId : Uuid) (venueTradeId : String) : Prop :=
  ∃ t ∈ db.trades, t.orderId = orderId ∧ venueTradeId ∈ tradeComponentIds t.venueTradeId

/-- What keeps an observation from undoing a final status: it repeats the status, or it is of an
order without such a trade. -/
def KeepsFinal : StoreCall → Db → Prop
  | .recordVenueTradeFinality orderId venueTradeId observed, db =>
    ∀ recorded, db.finalityStatus venueTradeId = some recorded → recorded.final = true →
      observed = recorded ∨ ¬ db.Linked orderId venueTradeId
  | _, _ => True

/-! ## What an observation records -/

theorem Db.finalityStatus_of_office {db db' : Db} (h : db'.office = db.office)
    (venueTradeId : String) : db'.finalityStatus venueTradeId = db.finalityStatus venueTradeId := by
  have htable := congrArg Office.venueTradeFinality h
  simp only [Db.office] at htable
  simp only [Db.finalityStatus, htable]

theorem Db.KeepsHouse.finalityStatus_eq {db db' : Db} (h : db.KeepsHouse db')
    (venueTradeId : String) : db'.finalityStatus venueTradeId = db.finalityStatus venueTradeId := by
  obtain ⟨_, _, _, _, _, _, _, _, _, _, -, rfl⟩ := h
  rfl

/-- An observation that names no trade of its order is dropped. -/
theorem recordVenueTradeFinality_unlinked {orderId : Uuid} {venueTradeId : String}
    {observed : TradeState} {db : Db} (hunlinked : ¬ db.Linked orderId venueTradeId) :
    recordVenueTradeFinality orderId venueTradeId observed db = .ok ⟨false, db, []⟩ := by
  unfold recordVenueTradeFinality
  dsimp only
  split
  · rfl
  · rename_i trade hfind
    obtain ⟨hmem, hcomponent⟩ := find?_mem hfind
    rw [List.mem_insertionSort, List.mem_filter] at hmem
    exact absurd ⟨trade, hmem.1, by simpa using hmem.2, hcomponent⟩ hunlinked

/-- An observation of a linked trade is what is recorded afterwards, under its own key only. -/
theorem recordVenueTradeFinality_linked {orderId : Uuid} {venueTradeId : String}
    {observed : TradeState} {db : Db} (hlinked : db.Linked orderId venueTradeId) :
    ∃ r, recordVenueTradeFinality orderId venueTradeId observed db = .ok r ∧
      ∀ key, r.db.finalityStatus key =
        if key = venueTradeId then some observed else db.finalityStatus key := by
  unfold recordVenueTradeFinality
  dsimp only
  split
  · rename_i hnone
    obtain ⟨t, ht, horder, hcomponent⟩ := hlinked
    rw [List.find?_eq_none] at hnone
    refine absurd (hnone t ?_) (by simpa using hcomponent)
    rw [List.mem_insertionSort, List.mem_filter]
    exact ⟨ht, by simpa using horder⟩
  · rename_i trade hfind
    split
    · rename_i hsame
      refine ⟨_, rfl, fun key => ?_⟩
      split
      · rename_i hkey
        rw [hkey, hsame]
      · rfl
    · refine ⟨_, rfl, fun key => ?_⟩
      simp only [Db.finalityStatus, Db.appendEvent]
      rw [Table.find?_upsert_row]
      split
      · rfl
      · rfl

theorem StoreCall.after_finality {config : StoreConfig} {now : Time} {db : Db} {call : StoreCall}
    (hcall : ∀ orderId venueTradeId observed,
      call ≠ .recordVenueTradeFinality orderId venueTradeId observed) (venueTradeId : String) :
    (call.after config now db).finalityStatus venueTradeId = db.finalityStatus venueTradeId := by
  unfold StoreCall.after
  cases hrun : call.run config now db with
  | error => rfl
  | ok r =>
    cases htrades : call.trades with
    | false => exact (StoreCall.run_keepsHouse hrun htrades).finalityStatus_eq venueTradeId
    | true =>
      cases hoffice : call.writesOffice with
      | false => exact Db.finalityStatus_of_office (StoreCall.run_office hrun hoffice) venueTradeId
      | true =>
        cases call with
        | admitIntent =>
          have htable := congrArg Office.venueTradeFinality (admitIntent_office hrun)
          simp only [Db.office] at htable
          simp only [Db.finalityStatus, htable]
        | recordVenueTradeFinality => exact absurd rfl (hcall _ _ _)
        | _ => simp [StoreCall.trades, StoreCall.writesOffice] at htrades hoffice

/-! ## One operation -/

/-- An operation keeps every final status if and only if it meets the condition. -/
theorem keeps_final_iff {config : StoreConfig} {now : Time} {db : Db} {call : StoreCall} :
    (∀ venueTradeId status, db.finalityStatus venueTradeId = some status → status.final = true →
      (call.after config now db).finalityStatus venueTradeId = some status) ↔
      KeepsFinal call db := by
  by_cases hcall : ∃ orderId venueTradeId observed,
      call = .recordVenueTradeFinality orderId venueTradeId observed
  · obtain ⟨orderId, venueTradeId, observed, rfl⟩ := hcall
    by_cases hlinked : db.Linked orderId venueTradeId
    · obtain ⟨r, hrun, hrecorded⟩ := @recordVenueTradeFinality_linked _ _ observed _ hlinked
      have hafter : (StoreCall.recordVenueTradeFinality orderId venueTradeId observed).after config
          now db = r.db := by
        simp only [StoreCall.after, StoreCall.run, hrun]
      rw [hafter]
      constructor
      · intro hkept recorded hstatus hfinal
        have hnow := hkept venueTradeId recorded hstatus hfinal
        rw [hrecorded, if_pos rfl] at hnow
        exact Or.inl (Option.some.inj hnow)
      · intro hkeeps key status hstatus hfinal
        rw [hrecorded]
        split
        · rename_i hkey
          subst hkey
          rcases hkeeps status hstatus hfinal with hsame | hunlinked
          · rw [hsame]
          · exact absurd hlinked hunlinked
        · exact hstatus
    · have hafter : (StoreCall.recordVenueTradeFinality orderId venueTradeId observed).after config
          now db = db := by
        simp only [StoreCall.after, StoreCall.run, recordVenueTradeFinality_unlinked hlinked]
      rw [hafter]
      exact ⟨fun _ _ _ _ => Or.inr hlinked, fun _ _ _ hstatus _ => hstatus⟩
  · have hother : ∀ orderId venueTradeId observed,
        call ≠ .recordVenueTradeFinality orderId venueTradeId observed :=
      fun orderId venueTradeId observed heq => hcall ⟨orderId, venueTradeId, observed, heq⟩
    constructor
    · intro _
      cases call with
      | recordVenueTradeFinality => exact absurd rfl (hother _ _ _)
      | _ => trivial
    · intro _ key status hstatus _
      rw [StoreCall.after_finality hother]
      exact hstatus

/-! ## Runs -/

/-- Along a run whose observations all meet the condition, a venue trade once recorded CONFIRMED or
FAILED keeps that status in every later database. -/
theorem final_status_absorbing {config : StoreConfig} {db : Db} {past : List Db}
    (h : StoreRun config KeepsFinal db past) :
    ∀ earlier ∈ past, ∀ venueTradeId status, earlier.finalityStatus venueTradeId = some status →
      status.final = true → db.finalityStatus venueTradeId = some status := by
  induction h with
  | initial => exact fun _ hearlier => absurd hearlier List.not_mem_nil
  | @call db past call now _ _ hkeeps ih =>
    intro earlier hearlier venueTradeId status hstatus hfinal
    have hnow : db.finalityStatus venueTradeId = some status := by
      rcases List.mem_cons.mp hearlier with rfl | hpast
      · exact hstatus
      · exact ih earlier hpast venueTradeId status hstatus hfinal
    exact keeps_final_iff.mpr hkeeps venueTradeId status hnow hfinal
  | @venue db db' past _ hframe ih =>
    intro earlier hearlier venueTradeId status hstatus hfinal
    rw [Db.finalityStatus_of_office hframe.office_eq]
    rcases List.mem_cons.mp hearlier with rfl | hpast
    · exact hstatus
    · exact ih earlier hpast venueTradeId status hstatus hfinal

/-- The operations after which the first order of a READY service is filled by one venue trade. -/
def filledSample : List StoreCall :=
  readySample ++ prepareSample "first" 3 ++
    [.beginSubmission 3 7,
      .finishSubmission 3 7 .submitted .filled (some "first") "VENUE_RESPONSE" 10 (some (1 / 2))
        ["trade"]]

/-- A confirmation, delivered twice, of the trade of a filled order. -/
theorem final_status_absorbing_confirmed :
    ∃ db past, StoreRun sampleLiveStore KeepsFinal db past ∧
      (∃ earlier ∈ past, earlier.finalityStatus "trade" = some .confirmed) ∧
      db.finalityStatus "trade" = some .confirmed := by
  have hsample : ((play sampleLiveStore 0 filledSample Db.initial []).any fun reached =>
      reached.1.finalityStatus "trade" = none ∧
        ((StoreCall.recordVenueTradeFinality 7 "trade" .confirmed).after sampleLiveStore 0
          reached.1).finalityStatus "trade" = some .confirmed) = true := by
    decide +kernel
  obtain ⟨db, past, hplay, -, hsample⟩ := exists_of_play hsample
  obtain ⟨hnone, hconfirmed⟩ := of_decide_eq_true hsample
  have hfilled : StoreRun sampleLiveStore KeepsFinal db past := by
    refine play_run .initial ?_ hplay
    simp [filledSample, readySample, prepareSample, KeepsFinal]
  have hobserved := StoreRun.call (.recordVenueTradeFinality 7 "trade" .confirmed) 0 hfilled trivial
    (fun recorded hrecorded => absurd (hnone.symm.trans hrecorded) (by simp))
  have hrepeated := StoreRun.call (.recordVenueTradeFinality 7 "trade" .confirmed) 0 hobserved
    trivial (fun recorded hrecorded _ => Or.inl (Option.some.inj (hconfirmed.symm.trans hrecorded)))
  exact ⟨_, _, hrepeated, ⟨_, List.mem_cons_self, hconfirmed⟩,
    final_status_absorbing hrepeated _ List.mem_cons_self "trade" .confirmed hconfirmed rfl⟩

/-- A trade is confirmed, and an observation delivered late records it FAILED. -/
theorem final_status_overwritten :
    ∃ db, Reachable sampleLiveStore db ∧ db.finalityStatus "trade" = some .confirmed ∧
      ((StoreCall.recordVenueTradeFinality 7 "trade" .failed).after sampleLiveStore 0
        db).finalityStatus "trade" = some .failed := by
  have hsample : ((play sampleLiveStore 0
      (filledSample ++ [.recordVenueTradeFinality 7 "trade" .confirmed]) Db.initial []).any
        fun reached => reached.1.finalityStatus "trade" = some .confirmed ∧
          ((StoreCall.recordVenueTradeFinality 7 "trade" .failed).after sampleLiveStore 0
            reached.1).finalityStatus "trade" = some .failed) = true := by
    decide +kernel
  obtain ⟨db, past, -, hreachable, hsample⟩ := exists_of_play hsample
  obtain ⟨hconfirmed, hfailed⟩ := of_decide_eq_true hsample
  exact ⟨db, hreachable, hconfirmed, hfailed⟩

end OddsfoxExecution
