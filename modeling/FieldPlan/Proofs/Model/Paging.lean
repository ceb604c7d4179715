import FieldPlan.Proofs.Model.Ordering
import FieldPlan.Proofs.Model.Remembered
import FieldPlan.Proofs.Request
import FieldPlan.Proofs.Request.Parts
/-!
# Page after page

A request with a page number is read to a query that differs in its page alone, and its statement
reads a window of the rows. The windows of the first pages are the front of all rows, whatever limit
the request asks for: the limit is clamped before the rows to skip are counted.
-/
namespace FieldPlan

open Cache

/-- How many rows a page has: the default where none are asked for, and no more than the most. -/
def Settings.pageRows (s : Settings) : Option Int → Nat
  | none => s.defaultLimit
  | some n => (min n s.maxLimit).toNat

namespace Request

variable {s : Settings} {raw : Entries Json} {resource : Option String} {asked : Option Int}

/-- How many rows a request asks for on a page: none, or what a text spells, from one upwards. -/
inductive AsksFor (raw : Entries Json) : Option Int → Prop where
  | nothing (h : IsAbsent (raw.get? "limit")) : AsksFor raw none
  | rows {text : String} {n : Int} (hget : raw.get? "limit" = some (.string text))
      (hn : Text.readInteger text = some n) (hpos : 1 ≤ n) : AsksFor raw (some n)

variable [Room]

theorem positive_of_isAbsent {name : String} (h : IsAbsent (raw.get? name)) :
    positive raw name = .ok (.ok none) := by
  rcases h with h | h | h <;> simp [positive, h]

theorem positive_of_integer? {name : String} {j : Json} {n : Int}
    (hget : raw.get? name = some j) (hj : integer? j = some n) (hn : 1 ≤ n) :
    positive raw name = .ok (.ok (some n)) := by
  have hkept : (integer? j).filter (1 ≤ ·) = some n := by simp [hj, hn]
  unfold positive
  rw [hget]
  split
  · next h => cases h
  · next h =>
    obtain rfl := Option.some.inj h
    cases hj
  · next h =>
    obtain rfl := Option.some.inj h
    cases hj
  · next h =>
    obtain rfl := Option.some.inj h
    rw [hkept]

theorem AsksFor.positive (h : AsksFor raw asked) : positive raw "limit" = .ok (.ok asked) := by
  cases h with
  | nothing h => exact positive_of_isAbsent h
  | rows hget hn hpos => exact positive_of_integer? hget hn hpos

omit [Room] in
theorem AsksFor.pageSize (h : AsksFor raw asked) : pageSize s asked = .ok (s.pageRows asked) := by
  cases h with
  | nothing h => rfl
  | @rows text n hget hn hpos =>
    have hsize : ((s.pageRows (some n) : Nat) : Int) = min n s.maxLimit := by
      have hmax := s.defaultLimit_le_maxLimit
      rw [Settings.pageRows]
      omega
    rw [hsize, Request.pageSize, Text.isLongInt_of_readInteger hn]
    by_cases hsmall : n ≤ s.maxLimit
    · rw [if_pos hsmall, Int.min_eq_left hsmall]
    · rw [if_neg hsmall, Int.min_eq_right (Int.le_of_lt (Int.not_le.mp hsmall))]
      rfl

theorem read_of_pagination {raw' : Entries Json} {q : Query} {p : Pagination}
    (h : read s raw resource = .ok q)
    (hsame : ∀ name ∈ ["fields", "counts", "sums", "averages", "filters", "order"],
      raw'.get? name = raw.get? name)
    (hp : pagination s raw' = .ok (.ok p)) :
    read s raw' resource = .ok { q with pagination := p } := by
  obtain ⟨r, hr, hproblems, rfl⟩ := exists_reading h
  obtain ⟨hfilters, -, hfields, hcounts, hsums, haverages, horder⟩ := reading?_eq_ok hr
  have hreading : reading? s raw' = .ok { r with pagination := .ok p } := by
    unfold reading?
    rw [filters_congr (hsame _ (by simp)), hfilters, hp, part_congr (hsame "fields" (by simp)),
      part_congr (hsame "counts" (by simp)), part_congr (hsame "sums" (by simp)),
      part_congr (hsame "averages" (by simp)), part_congr (hsame "order" (by simp)), ← hfields,
      ← hcounts, ← hsums, ← haverages, ← horder]
    rfl
  have hnone : Reading.problems { r with pagination := .ok p } = [] := by
    obtain ⟨h₁, h₂, h₃, h₄, h₅, h₆, -⟩ := Reading.problems_eq_nil_iff.mp hproblems
    exact Reading.problems_eq_nil_iff.mpr ⟨h₁, h₂, h₃, h₄, h₅, h₆, rfl⟩
  rw [read_eq, hreading]
  exact if_pos hnone

theorem pagination_page {j : Json} {k : Nat} (hlimit : AsksFor raw asked)
    (hcursor : IsAbsent (raw.get? "cursor")) (hget : raw.get? "page" = some j)
    (hj : integer? j = some (k : Int)) (hk : 1 ≤ k) :
    pagination s raw = .ok (.ok (.offset (s.pageRows asked) k)) := by
  have hpage : positive raw "page" = .ok (.ok (some k)) :=
    positive_of_integer? hget hj (by omega)
  have hnone : cursor raw = .ok none := by
    rcases hcursor with h | h | h <;> simp [cursor, h]
  rw [pagination_eq, hlimit.positive, hpage, hnone]
  simp only [Except.bind, Part.ok, hlimit.pageSize (s := s)]
  rfl

/-- A request that is accepted without its limit and its page is accepted with any limit and any
page, and only the page of its query depends on these. -/
theorem read_page {q : Query} {j : Json} {k : Nat}
    (hrest : read s ((raw.erase "limit").erase "page") resource = .ok q)
    (hlimit : AsksFor raw asked) (hcursor : IsAbsent (raw.get? "cursor"))
    (hj : integer? j = some (k : Int)) (hk : 1 ≤ k) :
    read s (raw.set "page" j) resource =
      .ok { q with pagination := .offset (s.pageRows asked) k } := by
  have hset (name : String) (hname : name ≠ "page") :
      (raw.set "page" j).get? name = raw.get? name := by
    rw [Entries.get?_set, if_neg hname]
  refine read_of_pagination hrest (fun name hname => ?_) (pagination_page ?_ ?_ ?_ hj hk)
  · have hother : name ≠ "limit" ∧ name ≠ "page" := by
      constructor <;> rintro rfl <;> simp at hname
    rw [hset name hother.2, Entries.get?_erase, if_neg hother.2, Entries.get?_erase,
      if_neg hother.1]
  · cases hlimit with
    | nothing h => exact .nothing (hset "limit" (by decide) ▸ h)
    | rows hget hn hpos => exact .rows ((hset "limit" (by decide)).trans hget) hn hpos
  · rw [hset "cursor" (by decide)]
    exact hcursor
  · rw [Entries.get?_set, if_pos rfl]

end Request

/-! ## Windows -/

variable {l : Loader} {st : Statement} {q : Query} {size n k : Nat}

def Statement.window (st : Statement) (rows : List Row) : List Row :=
  match st.limit with
  | some n => (rows.drop st.offset).take n
  | none => rows.drop st.offset

theorem Database.page_eq_window (db : Database) (st : Statement) :
    db.page st = st.window (db.ordered st.model st.order) := by
  unfold page Statement.window
  cases st.limit <;> rfl

/-- A statement for one page of its rows, in an order that comes after its own. -/
def Statement.turnedTo (st : Statement) (order : List (Column × Direction)) (size k : Nat) :
    Statement :=
  { st with order := st.order ++ order, offset := (k - 1) * size, limit := some size }

theorem Pagination.skipped_offset (hk : 1 ≤ k) (size : Nat) :
    (Pagination.offset size k).skipped = ((k - 1) * size : Nat) := by
  rw [skipped, Int.natCast_mul, Int.ofNat_sub hk]
  rfl

theorem Statement.within_offset (hst : st.offset = 0) (hk : 1 ≤ k)
    (order : List (Column × Direction)) :
    st.within order (.offset size k) = st.turnedTo order size k := by
  have hlimit : (Pagination.offset size k).limit = size := rfl
  have hoffset : (if (((k - 1) * size : Nat) : Int) = 0 then st.offset
      else (((k - 1) * size : Nat) : Int).toNat) = (k - 1) * size := by
    rw [Int.toNat_natCast, hst]
    split <;> omega
  unfold within turnedTo
  rw [Pagination.skipped_offset hk, hlimit, hoffset, if_neg (by omega), Int.toNat_natCast]

theorem flatMap_window (st : Statement) (order : List (Column × Direction)) (size n : Nat)
    (rows : List Row) :
    (List.range' 1 n).flatMap (fun k => (st.turnedTo order size k).window rows) =
      rows.take (n * size) := by
  induction n with
  | zero => simp
  | succ n ih =>
    have hlast : (st.turnedTo order size (1 + n)).window rows =
        (rows.drop (n * size)).take size := by
      simp [Statement.window, Statement.turnedTo]
    rw [List.range'_1_concat, List.flatMap_append, ih, List.flatMap_singleton, hlast, Nat.succ_mul,
      List.take_add]

namespace Loader

variable [Room]

theorem eval_applyQuery (l : Loader) (st : Statement) (q : Query) : (l.applyQuery st q).eval =
    .ok (st.within (st.model.orderedBy q.order) q.pagination) := by
  refine (eval_knownColumns l st.model _).trans ?_
  exact Task.eval_bind_eq_ok.mpr ⟨_, eval_orderColumns st.model q.order, rfl⟩

theorem follows_applyQuery {L : Legend ServiceError Metadata} (hL : l.Knows L)
    (hm : l.Maps st.model) (q : Query) : (l.applyQuery st q).Follows L := by
  refine follows_knownColumns hL hm _ fun known => ?_
  have horder (clauses : List OrderClause) : (orderColumns st.model known clauses).Follows L := by
    induction clauses with
    | nil => trivial
    | cons clause rest ih =>
      rw [orderColumns]
      split
      · split
        · exact Task.follows_bind _ _ ih fun _ _ => trivial
        · exact follows_modelError _
      · exact ih
  exact Task.follows_bind _ _ (horder q.order) fun _ _ => trivial

/-- Pages tile the rows. A request that is accepted without its limit and its page is accepted at
each page, and its statement reads as many rows as are asked for, or as many as a page may have, in
the lexicographic order of the clauses whose field is a column. Whatever arrangement of the rows a
database keeps to, the first pages one after the other are the front of it. -/
theorem pages_tile {s : Settings} {raw : Entries Json} {resource : Option String}
    {asked : Option Int} {page : Nat → Json}
    (hrest : Request.read s ((raw.erase "limit").erase "page") resource = .ok q)
    (hlimit : Request.AsksFor raw asked) (hcursor : Request.IsAbsent (raw.get? "cursor"))
    (hpage : ∀ k, 1 ≤ k → k ≤ n → Request.integer? (page k) = some (k : Int))
    (l : Loader) (st : Statement) (hst : st.offset = 0) (db : Database) :
    let size := s.pageRows asked
    let order := st.order ++ st.model.orderedBy q.order
    let query (k : Nat) : Query := { q with pagination := .offset size k }
    let turned (k : Nat) : Statement :=
      { st with order, offset := (k - 1) * size, limit := some size }
    (∀ k, 1 ≤ k → k ≤ n → Request.read s (raw.set "page" (page k)) resource = .ok (query k)) ∧
    (∀ k, 1 ≤ k → (l.applyQuery st (query k)).eval = .ok (turned k) ∧
      db.answer? (turned k) =
        if Database.maxCount < (k - 1) * size ∨ Database.maxCount < size then none
        else some (db.read (turned k))) ∧
    (∀ L : Legend ServiceError Metadata, L.Lossless → l.Knows L → l.Maps st.model →
      ∀ k store, 1 ≤ k → store.Faithful L →
        ((l.applyQuery st (query k)).run store).1 = .ok (turned k)) ∧
    (∀ rows, (List.range' 1 n).flatMap (fun k => (turned k).window rows) = rows.take (n * size)) ∧
    (List.range' 1 n).flatMap (fun k => db.page (turned k)) =
      (db.ordered st.model order).take (n * size) ∧
    (db.ordered st.model order).Perm (db.rows st.model.table) ∧
    (db.ordered st.model order).Pairwise (Lexicographic order) := by
  intro size order query turned
  have hwithin (k : Nat) (hk : 1 ≤ k) :
      st.within (st.model.orderedBy (query k).order) (query k).pagination = turned k :=
    Statement.within_offset hst hk _
  have happlied (k : Nat) (hk : 1 ≤ k) : (l.applyQuery st (query k)).eval = .ok (turned k) := by
    rw [eval_applyQuery, hwithin k hk]
  have hwindows (rows : List Row) := flatMap_window st (st.model.orderedBy q.order) size n rows
  refine ⟨fun k hk hkn => ?_, fun k hk => ⟨happlied k hk, ?_⟩, ?_, hwindows, ?_, ?_, ?_⟩
  · exact Request.read_page hrest hlimit hcursor (hpage k hk hkn) hk
  · have hlimit : (turned k).limit.any (Database.maxCount < ·) ↔ Database.maxCount < size := by
      simp [turned]
    rw [Database.answer?, if_congr (or_congr Iff.rfl hlimit) rfl rfl]
  · intro L hlossless hknows hmaps k store hk hstore
    rw [← happlied k hk]
    exact (Task.run_eq_eval hlossless _ (follows_applyQuery hknows hmaps _) store hstore).1
  · have hpages : (fun k => db.page (turned k)) =
        fun k => (turned k).window (db.ordered st.model order) :=
      funext fun k => db.page_eq_window (turned k)
    rw [hpages]
    exact hwindows _
  · exact db.ordered_perm st.model order
  · exact db.ordered_pairwise st.model order

end Loader

namespace Books

attribute [local instance] Room.usual

def book : Model where
  name := "Book"
  table := "books"
  columns := [⟨"id", "id", .integer, true⟩, ⟨"title", "title", .string, false⟩]
  relationships := []

def row (id : Int) (title : String) : Row := [("id", .int id), ("title", .text title)]

def library : Database := ⟨[("books", [row 1 "A", row 2 "C", row 3 "B"])]⟩

def librarian : Loader := ⟨⟨[], [], [], true⟩, ⟨[book]⟩, "resourcekit"⟩

/-- No more than two books stand on a page, whatever is asked for. -/
def twoRows : Settings :=
  { (default : Settings) with
    defaultLimit := 2
    maxLimit := 2
    one_le_defaultLimit := Nat.le_succ 1
    defaultLimit_le_maxLimit := Nat.le_refl 2 }

def byTitle : Entries Json :=
  [("limit", .string "500"), ("order", .string "-title,shelf"), ("page", .string "x")]

def titleQuery : Query where
  resource := none
  fields := []
  counts := []
  sums := []
  averages := []
  filters := none
  order := [⟨"title", .descending⟩, ⟨"shelf", .ascending⟩]
  pagination := .offset 2 1

theorem two_pages :
    Request.read twoRows ((byTitle.erase "limit").erase "page") none = .ok titleQuery ∧
    Request.AsksFor byTitle (some 500) ∧ Request.IsAbsent (byTitle.get? "cursor") ∧
    (∀ k : Nat, 1 ≤ k → k ≤ 2 → Request.integer? (.string (toString k)) = some (k : Int)) ∧
    Request.read twoRows (byTitle.set "page" (.string "2")) none =
      .ok { titleQuery with pagination := .offset 2 2 } ∧
    ∃ order : List (Column × Direction), order.map (·.1.name) = ["title"] ∧
      let turned (k : Nat) : Statement :=
        { Statement.ofModel book with order, offset := (k - 1) * 2, limit := some 2 }
      (librarian.applyQuery (Statement.ofModel book)
        { titleQuery with pagination := .offset 2 2 }).eval = .ok (turned 2) ∧
      library.page (turned 1) ++ library.page (turned 2) =
        [row 2 "C", row 3 "B", row 1 "A"] := by
  have hrest : Request.read twoRows ((byTitle.erase "limit").erase "page") none =
      .ok titleQuery := by rfl
  have hlimit : Request.AsksFor byTitle (some 500) := .rows rfl (by rfl) (by decide)
  have hcursor : Request.IsAbsent (byTitle.get? "cursor") := .inl rfl
  have hpage (k : Nat) (hk : 1 ≤ k) (hkn : k ≤ 2) :
      Request.integer? (.string (toString k)) = some (k : Int) := by
    obtain rfl | rfl : k = 1 ∨ k = 2 := by omega
    · rfl
    · rfl
  obtain ⟨hread, happlied, -, -, hpages, -⟩ :=
    Loader.pages_tile hrest hlimit hcursor hpage librarian (Statement.ofModel book) rfl library
  have hordered : library.ordered book (book.orderedBy titleQuery.order) =
      [row 2 "C", row 3 "B", row 1 "A"] := by
    have hca : Database.rowLe book (book.orderedBy titleQuery.order) (row 1 "A") (row 2 "C") =
      false := by decide
    have hcb : Database.rowLe book (book.orderedBy titleQuery.order) (row 2 "C") (row 3 "B") =
      true := by decide
    have hab : Database.rowLe book (book.orderedBy titleQuery.order) (row 1 "A") (row 3 "B") =
      false := by decide
    show [row 1 "A", row 2 "C", row 3 "B"].mergeSort _ = _
    simp [List.mergeSort, List.MergeSort.Internal.splitInTwo, hca, hcb, hab]
  refine ⟨hrest, hlimit, hcursor, hpage, hread 2 (by decide) (by decide),
    book.orderedBy titleQuery.order, rfl, (happlied 2 (by decide)).1, ?_⟩
  have htaken : (library.ordered book (book.orderedBy titleQuery.order)).take (2 * 2) =
      [row 2 "C", row 3 "B", row 1 "A"] := by
    rw [hordered]
    rfl
  rw [← htaken]
  exact (congrArg (library.page _ ++ ·) (List.append_nil _)).symm.trans hpages

end Books
end FieldPlan
