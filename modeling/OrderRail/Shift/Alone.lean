import OrderRail.Queue.Board
import OrderRail.Random.Generators

/-!
# Customers and a cook on a queue of their own

Here one thread uses a queue that nobody else touches: customers place their orders one after
another, and a cook may then take what is there. Such a thread cannot be helped by anybody, so a
section that has to wait would wait for ever, which is one of the ways to end. There is always
memory for one more order here.

A cook keeps its own books while it takes: it counts the orders that it fulfills, notes their
numbers if it has been given a list for them, and tells what it does.
-/

namespace OrderRail.Shift

open Queue (Board Terms)

/-- How a lone visit to the queue ends. -/
inductive Visit where
  /-- A customer has placed everything, or a cook was told that work has ended. -/
  | complete
  /-- The queue refused an order. -/
  | refused (reason : QueueError)
  /-- The visitor waits for ever. -/
  | stuck
  | crashed (fault : Fault)
  deriving DecidableEq, Repr

/-- What a visit did: the orders that were placed or taken, in order, how it ended, and the board
that it leaves. -/
structure VisitReport where
  orders : List (Order Dish)
  visit : Visit
  board : Board Dish

/-- A visit that did nothing. -/
def VisitReport.ended (visit : Visit) (board : Board Dish) : VisitReport :=
  { orders := [], visit, board }

/-- Put an order in front of those of a visit. -/
def VisitReport.after (order : Order Dish) (report : VisitReport) : VisitReport :=
  { report with orders := order :: report.orders }

/-- A customer places `count` orders, each for the next random item. The item is drawn before the
queue is asked, and the first refusal ends the visit. -/
def placeOrders (terms : Terms) (id : UInt64) : Nat → Words → Board Dish → VisitReport
  | 0, _, board => .ended .complete board
  | count + 1, words, board =>
    let (item, words) := Menu.pick words
    let dish : Dish := { item, customer := id }
    match board.whileOpen (board.submit terms none dish) with
    | .finish (.ok number) board _ =>
      (placeOrders terms id count words board).after ⟨number, dish⟩
    | .finish (.error rejection) board _ => .ended (.refused rejection.reason) board
    | .wait _ => .ended .stuck board
    | .fail fault board => .ended (.crashed fault) board

/-- The journal of a customer's visit. -/
def VisitReport.placedEvents (report : VisitReport) : List Event :=
  report.orders.map .orderPlaced

/-- The books of a cook. -/
structure CookBooks where
  /-- How many orders the cook has fulfilled. -/
  fulfilled : Nat
  /-- The numbers of the orders in turn, if there is a list for them. -/
  seen : Option (List Nat)
  journal : List Event

/-- The books of a cook who has just begun, with the list that it has been given. -/
def CookBooks.blank (seen : Option (List Nat)) : CookBooks :=
  { fulfilled := 0, seen, journal := [] }

/-- The books after the cook has noted an order, told of it and fulfilled it. -/
def CookBooks.cooked (id : Nat) (order : Order Dish) (books : CookBooks) : CookBooks where
  seen := books.seen.map (· ++ [order.number])
  journal := books.journal ++ [.cooking id order]
  fulfilled := books.fulfilled + 1

/-- The books after the cook has been told that work has ended. -/
def CookBooks.finished (id : Nat) (books : CookBooks) : CookBooks :=
  { books with journal := books.journal ++ [.noMoreOrders id books.fulfilled] }

/-- What a cook's visit leaves: its books, how it ended, and the board. -/
structure CookReport where
  books : CookBooks
  visit : Visit
  board : Board Dish

/-- A cook takes orders and keeps its books until it is told that work has ended. It takes at most
`count` orders; one who may take no more is stuck. -/
def cook (terms : Terms) (id : Nat) : Nat → CookBooks → Board Dish → CookReport
  | 0, books, board => { books, visit := .stuck, board }
  | count + 1, books, board =>
    match board.whileOpen (board.take terms) with
    | .finish (.order order) board _ => cook terms id count (books.cooked id order) board
    | .finish .endOfWork board _ => { books := books.finished id, visit := .complete, board }
    | .wait _ => { books, visit := .stuck, board }
    | .fail fault board => { books, visit := .crashed fault, board }

/-- A cook on a queue of its own. It takes no more orders than are pending. -/
def cookAll (terms : Terms) (id : Nat) (seen : Option (List Nat)) (board : Board Dish) :
    CookReport :=
  cook terms id (board.pending.size + 1) (.blank seen) board

/-- The orders that a cook is handed, at most `count` of them, whatever it does with them. -/
def takeOrders (terms : Terms) : Nat → Board Dish → VisitReport
  | 0, board => .ended .stuck board
  | count + 1, board =>
    match board.whileOpen (board.take terms) with
    | .finish (.order order) board _ => (takeOrders terms count board).after order
    | .finish .endOfWork board _ => .ended .complete board
    | .wait _ => .ended .stuck board
    | .fail fault board => .ended (.crashed fault) board

/-- The orders that are handed out until work ends or somebody would have to wait. -/
def cookAlone (terms : Terms) (board : Board Dish) : VisitReport :=
  takeOrders terms (board.pending.size + 1) board

/-- The events with which a cook tells of a visit. -/
def VisitReport.cookedEvents (report : VisitReport) (cook : Nat) : List Event :=
  report.orders.map (.cooking cook) ++
    match report.visit with
    | .complete => [.noMoreOrders cook report.orders.length]
    | _ => []

/-- A customer's number, how many orders it wants to place, and its seed. -/
structure Guest where
  id : UInt64
  orders : Nat
  seed : Option UInt64

/-- The visit of a guest. -/
def Guest.visit (terms : Terms) (generators : Generators) (guest : Guest) (board : Board Dish) :
    VisitReport :=
  placeOrders terms guest.id guest.orders (.ofCustomer guest.seed generators guest.id) board

/-- The visits of several guests, one after another, each with fresh words of its own if it has no
seed. -/
def visits (terms : Terms) (generators : Generators) : List Guest → Board Dish → List VisitReport
  | [], _ => []
  | guest :: guests, board =>
    let report := guest.visit terms generators board
    report :: visits terms generators.rest guests report.board

end OrderRail.Shift
