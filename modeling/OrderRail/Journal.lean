import OrderRail.Order
import OrderRail.Thread

/-!
# The journal

Every noteworthy event of a run is entered with the thread that saw it. An event has a fixed level
and a fixed wording; which levels are shown is decided by a filter when the journal is read.
-/

namespace OrderRail

/-- The name of the program. -/
def programName : String := "kitchen_orders"

/-- How much an event matters. -/
inductive Level where
  | error
  | warn
  | info
  | debug
  | trace
  deriving DecidableEq, Repr

namespace Level

/-- The rank of a level, from the gravest to the most detailed. -/
def rank : Level → Nat
  | .error => 1
  | .warn => 2
  | .info => 3
  | .debug => 4
  | .trace => 5

/-- The word for a level. -/
def name : Level → String
  | .error => "ERROR"
  | .warn => "WARN"
  | .info => "INFO"
  | .debug => "DEBUG"
  | .trace => "TRACE"

end Level

/-- What can be worth an entry. -/
inductive Event where
  | queueOpened (capacity expected : Nat)
  | queueClosed (handled : Nat)
  | accountsMismatch (expected handled leftover : Nat)
  | kitchenOpened (capacity customers cooks expected : Nat)
  | kitchenClosed (handled : Nat) (elapsed : Duration)
  | orderPlaced (order : Order Dish)
  | cooking (cook : Nat) (order : Order Dish)
  | noMoreOrders (cook fulfilled : Nat)
  deriving DecidableEq, Repr

namespace Event

/-- The level of an event. -/
def level : Event → Level
  | .queueOpened .. => .debug
  | .queueClosed .. => .info
  | .accountsMismatch .. => .warn
  | .kitchenOpened .. => .info
  | .kitchenClosed .. => .info
  | .orderPlaced .. => .debug
  | .cooking .. => .debug
  | .noMoreOrders .. => .debug

/-- An item in the quotes in which it is logged. -/
def quoted (item : Item) : String := "\"" ++ item.name ++ "\""

/-- The wording of an event. -/
def text : Event → String
  | .queueOpened capacity expected =>
    s!"order queue opened capacity={capacity} expected={expected}"
  | .queueClosed handled => s!"order queue closed handled={handled}"
  | .accountsMismatch expected handled leftover =>
    s!"order accounting mismatch at close expected={expected} handled={handled} " ++
      s!"leftover={leftover}"
  | .kitchenOpened capacity customers cooks expected =>
    s!"kitchen open capacity={capacity} customers={customers} cooks={cooks} expected={expected}"
  | .kitchenClosed handled elapsed =>
    s!"kitchen closed handled={handled} elapsed_ms=" ++ toString elapsed.millisWord
  | .orderPlaced order =>
    "order placed customer=" ++ toString order.payload.customer ++
      " order=" ++ toString order.number ++ " item=" ++ quoted order.payload.item
  | .cooking cook order =>
    s!"cooking cook={cook} order=" ++ toString order.number ++
      " item=" ++ quoted order.payload.item ++ " customer=" ++ toString order.payload.customer
  | .noMoreOrders cook fulfilled => s!"no more orders cook={cook} fulfilled={fulfilled}"

end Event

/-- An event and the thread that entered it. -/
structure Entry where
  thread : Thread
  event : Event
  deriving DecidableEq, Repr

/-- The line that shows an entry. -/
def Entry.line (entry : Entry) : String :=
  entry.event.level.name ++ " " ++ entry.thread.name ++ " " ++ entry.event.text

/-- Which entries are shown: those up to a level, or none. -/
abbrev Filter := Option Level

namespace Filter

/-- Whether a level is shown. -/
def shows (filter : Filter) (level : Level) : Bool :=
  match filter with
  | none => false
  | some limit => decide (level.rank ≤ limit.rank)

/-- The filter that a word names. -/
def ofWord? : String → Option Filter
  | "off" => some none
  | "error" => some (some .error)
  | "warn" => some (some .warn)
  | "info" => some (some .info)
  | "debug" => some (some .debug)
  | "trace" => some (some .trace)
  | _ => none

/-- The filter of a setting: a level for everything or for the program alone.

Without a setting, or with one that names no level, everything up to debugging is shown. -/
def ofSetting (setting : Option String) : Filter :=
  let named := setting.bind fun text =>
    let start := (programName ++ "=").toList
    if start.isPrefixOf text.toList then
      ofWord? (String.ofList (text.toList.drop start.length))
    else ofWord? text
  named.getD (some .debug)

end Filter

/-- The lines of a journal that a filter shows, in order. -/
def journalLines (filter : Filter) (journal : List Entry) : List String :=
  (journal.filter fun entry => filter.shows entry.event.level).map Entry.line

end OrderRail
