import VirePortal.Concurrent.Dialogue
import VirePortal.Go.Http

/-!
# Request bodies and forms

What `net/http` does with the body of a request. A handler is a program that may read from `r.Body`
(`BodyOp.read`), so what it reads may depend on what it has read. `http.MaxBytesReader` stands
between a program and the body: `MaxBytesReader.through` answers the reads of a program from reads
of the body below it. What it hands out is the first part of what it takes, at most its limit, and
it takes at most one byte more, from which it learns that the body is longer
(`MaxBytesReader.does_through`).

`FormValue` parses the form of a request when it is asked for a value for the first time, and then
the body is read: up to 10 MB of it for a posted form, and as much as the parts of a multipart form
take. `mime.ParseMediaType` and the reader of multipart forms are parameters (`FormLib`).
-/

namespace VirePortal.Go

open Concurrent

/-- Why a reader has no more to give. -/
inductive ReadError where
  /-- `io.EOF`. -/
  | eof
  /-- `http.MaxBytesError`. -/
  | tooLarge
  | other (text : Str)
  deriving DecidableEq

/-- What a read returns. -/
structure Chunk where
  data : Str
  err : Option ReadError := none
  deriving DecidableEq

/-- What a handler does besides computing. -/
inductive BodyOp where
  /-- A read of at most `n` bytes from `r.Body`: one call of `Read`, or (`all`) calls until there
  are `n` bytes or an error. -/
  | read (all : Bool) (n : ℕ)
  /-- `r.Body` is replaced by a reader with a limit; it has no effect, and lets a list of operations
  say what came before it. -/
  | wrap (limit : ℕ)
  /-- `rand.Read`. -/
  | rand (n : ℕ)
  /-- `uuid.New`. -/
  | uuid
  deriving DecidableEq

/-- What a handler receives from it. -/
@[reducible]
def BodyReply : BodyOp → Type
  | .read _ _ => Chunk
  | .wrap _ => Unit
  | .rand _ => Option Str
  | .uuid => Str

/-- The replies for a body that has nothing in it. -/
def BodyReply.empty : (o : BodyOp) → BodyReply o
  | .read _ _ => ⟨[], some .eof⟩
  | .wrap _ => ()
  | .rand _ => none
  | .uuid => []

/-- A program of a handler. -/
abbrev Serving := Prog BodyOp BodyReply

/-- Operations with their replies. -/
abbrev Served := List ((o : BodyOp) × BodyReply o)

/-- One read. -/
def readBody (all : Bool) (n : ℕ) : Serving Chunk := Prog.call (BodyOp.read all n)

def BodyOp.isRead : BodyOp → Bool
  | .read _ _ => true
  | _ => false

def BodyOp.isWrap : BodyOp → Bool
  | .wrap _ => true
  | _ => false

/-- The bytes that the reads return. -/
def bytes : Served → Str
  | [] => []
  | ⟨.read _ _, c⟩ :: ops => c.data ++ bytes ops
  | _ :: ops => bytes ops

/-- The reads return pieces of `body` one after the other, none longer than it was asked for. A read
for all of `n` bytes returns them unless it fails, and at the end of the body nothing is left. -/
def Feeds : Str → Served → Prop
  | _, [] => True
  | body, ⟨.read all n, c⟩ :: ops =>
    c.data.length ≤ n ∧ (all = true → c.err = none → c.data.length = n) ∧
      ∃ rest, body = c.data ++ rest ∧ (c.err = some .eof → rest = []) ∧ Feeds rest ops
  | body, _ :: ops => Feeds body ops

/-- No read returns more than it was asked for. -/
def Fits (ops : Served) : Prop := ∀ x ∈ ops, ∀ all n c, x = ⟨.read all n, c⟩ → c.data.length ≤ n

/-- The operations before the body has a limit. -/
def beforeWrap (ops : Served) : Served := ops.takeWhile fun x => !x.1.isWrap

/-- The body is not read before it has a limit. -/
def NoEarlyRead (ops : Served) : Prop := ∀ x ∈ beforeWrap ops, x.1.isRead = false

/-! ### The reader with a limit -/

/-- `maxBytesReader`: what is left of the limit, and the error that it returned. -/
structure MaxBytesReader where
  n : ℕ
  err : Option ReadError := none

/-- The end of `maxBytesReader.Read`, on what the reader below it returned. -/
def MaxBytesReader.deliver (l : MaxBytesReader) (c : Chunk) : Chunk × MaxBytesReader :=
  if c.data.length ≤ l.n then (c, ⟨l.n - c.data.length, c.err⟩)
  else (⟨c.data.take l.n, some .tooLarge⟩, ⟨0, some .tooLarge⟩)

/-- The program reads through `l`: an error stays, and a read takes at most one byte more than what
is left of the limit. -/
def MaxBytesReader.through {α : Type} : MaxBytesReader → Serving α → Serving α
  | _, .ret a => .ret a
  | l, .op (.read all n) k =>
    match l.err with
    | some e => l.through (k ⟨[], some e⟩)
    | none =>
      if n = 0 then l.through (k ⟨[], none⟩)
      else .op (.read all (min n (l.n + 1))) fun c => (l.deliver c).2.through (k (l.deliver c).1)
  | l, .op (.wrap limit) k => .op (.wrap limit) fun r => l.through (k r)
  | l, .op (.rand n) k => .op (.rand n) fun r => l.through (k r)
  | l, .op .uuid k => .op .uuid fun r => l.through (k r)

/-- The bytes of two parts. -/
theorem bytes_append (ops ops' : Served) : bytes (ops ++ ops') = bytes ops ++ bytes ops' := by
  induction ops with
  | nil => rfl
  | cons x ops ih =>
    obtain ⟨o, r⟩ := x
    cases o with
    | read all n => exact (congrArg (r.data ++ ·) ih).trans (List.append_assoc ..).symm
    | wrap | rand | uuid => exact ih

/-- Only reads return bytes of the body. -/
theorem bytes_eq_nil {ops : Served} (h : ∀ x ∈ ops, x.1.isRead = false) : bytes ops = [] := by
  induction ops with
  | nil => rfl
  | cons x ops ih =>
    obtain ⟨o, r⟩ := x
    have hx : o.isRead = false := h ⟨o, r⟩ (.head _)
    have hops : bytes ops = [] := ih fun y hy => h y (.tail _ hy)
    cases o with
    | read all n => cases hx
    | wrap | rand | uuid => exact hops

/-- What a body feeds fits. -/
theorem Feeds.fits {body : Str} {ops : Served} (h : Feeds body ops) : Fits ops := by
  induction ops generalizing body with
  | nil => exact nofun
  | cons x ops ih =>
    obtain ⟨o, r⟩ := x
    intro y hy all n c heq
    cases o with
    | read all' n' =>
      obtain ⟨hlength, -, rest, -, -, hrest⟩ := h
      rcases List.mem_cons.1 hy with rfl | hy
      · cases heq
        exact hlength
      · exact ih hrest y hy all n c heq
    | wrap | rand | uuid =>
      rcases List.mem_cons.1 hy with rfl | hy
      · cases heq
      · exact ih h y hy all n c heq

/-- The rest fits. -/
theorem Fits.tail {x : (o : BodyOp) × BodyReply o} {ops : Served}
    (h : Fits (x :: ops)) : Fits ops :=
  fun y hy => h y (.tail _ hy)

/-- A read returns no more than was asked for. -/
theorem Fits.read {all : Bool} {n : ℕ} {c : Chunk} {ops : Served}
    (h : Fits (⟨.read all n, c⟩ :: ops)) :
    c.data.length ≤ n :=
  h _ (.head _) all n c rfl

namespace MaxBytesReader

variable {α : Type} {l : MaxBytesReader} {p : Serving α} {ops : Served} {a : α}

/-- What a reader hands out, now and from what comes, is the first part of what it takes. -/
theorem deliver_take (l : MaxBytesReader) (c : Chunk) (rest : Str) :
    (l.deliver c).1.data ++ rest.take (l.deliver c).2.n = (c.data ++ rest).take l.n := by
  unfold deliver
  split_ifs with hle
  · rw [List.take_append, List.take_of_length_le hle]
  · rw [List.take_append_of_le_length (by omega), List.take_zero, List.append_nil]

/-- What a reader may take from the body: one byte more than is left, and nothing after an error. -/
def allowance (l : MaxBytesReader) : ℕ := if l.err = none then l.n + 1 else 0

/-- The allowance falls by what is delivered. -/
theorem deliver_allowance {c : Chunk} (hc : c.data.length ≤ l.n + 1) :
    c.data.length + (l.deliver c).2.allowance ≤ l.n + 1 := by
  unfold deliver
  split_ifs with hle
  · unfold allowance
    split_ifs
    · dsimp only
      omega
    · omega
  · exact hc

/-- The program ends with `a` when it is handed what `ops` take from the body up to what is left of
the limit, and they take at most one byte more. -/
def Limits (l : MaxBytesReader) (p : Serving α) (ops : Served) (a : α) : Prop :=
  (∃ inner, p.Does inner a ∧ bytes inner = (bytes ops).take l.n) ∧ (bytes ops).length ≤ l.allowance

/-- An operation that does not read is passed on. -/
theorem Limits.pass {o : BodyOp} {k : BodyReply o → Serving α} {r : BodyReply o}
    (h : l.Limits (k r) ops a) (hread : o.isRead = false) :
    l.Limits (.op o k) (⟨o, r⟩ :: ops) a := by
  have hskip : ∀ ops : Served, bytes (⟨o, r⟩ :: ops) = bytes ops := by
    intro ops
    cases o <;> first | rfl | cases hread
  obtain ⟨⟨inner, hdoes, hinner⟩, htaken⟩ := h
  unfold Limits
  rw [hskip]
  exact ⟨⟨⟨o, r⟩ :: inner, ⟨r, inner, rfl, hdoes⟩, (hskip inner).trans hinner⟩, htaken⟩

variable {all : Bool} {n : ℕ} {k : Chunk → Serving α}

/-- A reply without data is handed out for nothing. -/
theorem Limits.nothing {err : Option ReadError} (h : l.Limits (k ⟨[], err⟩) ops a) :
    l.Limits (.op (.read all n) k) ops a := by
  obtain ⟨⟨inner, hdoes, hinner⟩, htaken⟩ := h
  exact ⟨⟨⟨.read all n, ⟨[], err⟩⟩ :: inner, ⟨_, inner, rfl, hdoes⟩, hinner⟩, htaken⟩

/-- A reply of the body is handed out up to what is left, and the reader goes on with less. -/
theorem Limits.deliver {m : ℕ} {c : Chunk} (h : (l.deliver c).2.Limits (k (l.deliver c).1) ops a)
    (herr : l.err = none) (hc : c.data.length ≤ l.n + 1) :
    l.Limits (.op (.read all n) k) (⟨.read all m, c⟩ :: ops) a := by
  obtain ⟨⟨inner, hdoes, hinner⟩, htaken⟩ := h
  refine ⟨⟨⟨.read all n, (l.deliver c).1⟩ :: inner, ⟨_, inner, rfl, hdoes⟩, ?_⟩, ?_⟩
  · calc (l.deliver c).1.data ++ bytes inner
        = (l.deliver c).1.data ++ (bytes ops).take (l.deliver c).2.n := by rw [hinner]
      _ = (c.data ++ bytes ops).take l.n := deliver_take l c (bytes ops)
  · calc (c.data ++ bytes ops).length
        = c.data.length + (bytes ops).length := List.length_append
      _ ≤ c.data.length + (l.deliver c).2.allowance := Nat.add_le_add_left htaken _
      _ ≤ l.n + 1 := deliver_allowance hc
      _ = l.allowance := by rw [allowance, if_pos herr]

/-- What a program does through `l` is within its limit. -/
theorem does_through (h : (l.through p).Does ops a) (hfits : Fits ops) : l.Limits p ops a := by
  induction p generalizing l ops with
  | ret b =>
    obtain ⟨rfl, rfl⟩ := h
    exact ⟨⟨[], ⟨rfl, rfl⟩, List.take_nil.symm⟩, Nat.zero_le _⟩
  | op o k ih =>
    have hpass : (∃ r rest, ops = ⟨o, r⟩ :: rest ∧ (l.through (k r)).Does rest a) →
        o.isRead = false → l.Limits (.op o k) ops a := by
      rintro ⟨r, rest, rfl, hrest⟩ hread
      exact (ih r hrest hfits.tail).pass hread
    cases o with
    | wrap limit => exact hpass h rfl
    | rand n => exact hpass h rfl
    | uuid => exact hpass h rfl
    | read all n =>
      rw [through] at h
      -- After an error the reader answers by itself and the body is not read.
      cases herr : l.err with
      | some e =>
        rw [herr] at h
        exact (ih ⟨[], some e⟩ h hfits).nothing
      | none =>
        rw [herr] at h
        dsimp only at h
        split_ifs at h with hn
        · exact (ih ⟨[], none⟩ h hfits).nothing
        · obtain ⟨c, rest, rfl, hrest⟩ := h
          exact (ih (l.deliver c).1 hrest hfits.tail).deliver herr
            (hfits.read.trans (min_le_right ..))

end MaxBytesReader

/-! ### Forms -/

/-- What `mime.ParseMediaType` returns: the type, the parameter `boundary`, and whether there was no
error. -/
structure MediaType where
  name : Str
  boundary : Option Str := none
  ok : Bool := true

/-- The parts of the standard library that parse a form. -/
structure FormLib where
  /-- `mime.ParseMediaType`. -/
  parseMediaType : Str → MediaType
  /-- `multipart.Reader.ReadForm` for a boundary: the values of the form, `none` when it fails. -/
  readForm : Str → Serving (Option Values)
  /-- It begins with a read of the body. -/
  readForm_reads : ∀ boundary, ∃ all n k, readForm boundary = .op (.read all n) k

/-- A request on its way to its handler. -/
structure Incoming where
  method : Str
  url : URL
  header : Header := []
  cookies : List Cookie := []
  /-- `r.Form`, `none` while it is nil. -/
  form : Option Values := none

/-- `r.Cookie`: the value of the first cookie of a name. -/
def Incoming.cookie (r : Incoming) (name : Str) : Option Str :=
  (r.cookies.find? fun c => c.name = name).map Cookie.value

/-- `copyValues`. -/
def Values.copy (dst src : Values) : Values :=
  src.foldl (fun v e => e.2.foldl (fun v value => v.add e.1 value) v) dst

/-- `maxFormSize` of `parsePostForm`: only a body with a limit of its own may be read to its end. -/
def maxFormSize (wrapped : Bool) : ℕ := if wrapped then 2 ^ 63 - 1 else 10 * 2 ^ 20

/-- Whether `parsePostForm` takes the body for a form. -/
def Incoming.postsForm (lib : FormLib) (r : Incoming) : Bool :=
  let ct := r.header.get "Content-Type"
  (lib.parseMediaType (if ct = [] then "application/octet-stream" else ct)).name =
    "application/x-www-form-urlencoded"

/-- `parsePostForm`. Its error does not matter to `FormValue`. -/
def parsePostForm (lib : FormLib) (wrapped : Bool) (r : Incoming) : Serving Values :=
  if r.postsForm lib then do
    let c ← readBody true (maxFormSize wrapped + 1)
    return if c.err = none ∨ c.err = some .eof then
      if maxFormSize wrapped < c.data.length then [] else parseQuery c.data
    else []
  else return []

/-- `ParseForm`: the values of a posted form and then those of the query. -/
def parseForm (lib : FormLib) (wrapped : Bool) (r : Incoming) : Serving Values := do
  let post ← if r.method = "POST" ∨ r.method = "PUT" ∨ r.method = "PATCH" then
    parsePostForm lib wrapped r else pure []
  return post.copy (parseQuery r.url.rawQuery)

/-- `multipartReader`: the boundary of a multipart form, `none` when it returns an error. -/
def Incoming.multipartBoundary (lib : FormLib) (r : Incoming) : Option Str :=
  let ct := r.header.get "Content-Type"
  let media := lib.parseMediaType ct
  if ct = [] then none
  else if !media.ok || media.name ≠ "multipart/form-data" then none
  else media.boundary

/-- `ParseMultipartForm`, of a request whose form was not parsed before: the values that it leaves
in `r.Form`. -/
def parseMultipartForm (lib : FormLib) (wrapped : Bool) (r : Incoming) : Serving Values := do
  let form ← parseForm lib wrapped r
  match r.multipartBoundary lib with
  | none => return form
  | some boundary =>
    match ← lib.readForm boundary with
    | none => return form
    | some values => return form.copy values

/-- `r.FormValue`, with the request that it leaves. -/
def formValue (lib : FormLib) (wrapped : Bool) (r : Incoming) (key : Str) :
    Serving (Str × Incoming) :=
  match r.form with
  | some form => return (form.get key, r)
  | none => do
    let form ← parseMultipartForm lib wrapped r
    return (form.get key, { r with form := some form })

/-- Whether `ParseForm` reads the body. -/
def Incoming.readsPost (lib : FormLib) (r : Incoming) : Bool :=
  (r.method = "POST" || r.method = "PUT" || r.method = "PATCH") && r.postsForm lib

/-- Whether `r.FormValue` reads the body. -/
def Incoming.readsForm (lib : FormLib) (r : Incoming) : Bool :=
  r.form = none && (r.readsPost lib || (r.multipartBoundary lib).isSome)

section FormValue

variable {lib : FormLib} {r : Incoming}

/-- A form without a body is read at once. -/
theorem exists_parseForm_eq_pure (h : r.readsPost lib = false) (wrapped : Bool) :
    ∃ form, parseForm lib wrapped r = pure form := by
  unfold parseForm parsePostForm
  by_cases hmethod : r.method = "POST" ∨ r.method = "PUT" ∨ r.method = "PATCH"
  · have hform : r.postsForm lib = false := by
      rcases hmethod with hm | hm | hm <;> simpa [Incoming.readsPost, hm] using h
    rw [if_pos hmethod, hform]
    exact ⟨_, rfl⟩
  · rw [if_neg hmethod]
    exact ⟨_, rfl⟩

/-- A form that is in the query, or that was parsed before, is read without the body. -/
theorem exists_formValue_eq_pure (h : r.readsForm lib = false) (wrapped : Bool) (key : Str) :
    ∃ value form, formValue lib wrapped r key = pure (value, { r with form := form }) := by
  unfold formValue
  cases hform : r.form with
  | some form => exact ⟨form.get key, r.form, rfl⟩
  | none =>
    have hparts : r.readsPost lib = false ∧ (r.multipartBoundary lib).isSome = false := by
      simpa only [Incoming.readsForm, hform, decide_true, Bool.true_and,
        Bool.or_eq_false_iff] using h
    obtain ⟨form, hparse⟩ := exists_parseForm_eq_pure hparts.1 wrapped
    have hnone : r.multipartBoundary lib = none := by simpa using hparts.2
    refine ⟨form.get key, some form, ?_⟩
    unfold parseMultipartForm
    rw [hparse, hnone]
    rfl

/-- A form that is in the body begins with a read of it. -/
theorem exists_formValue_eq_read (h : r.readsForm lib = true) (wrapped : Bool) (key : Str) :
    ∃ all n k, formValue lib wrapped r key = .op (.read all n) k := by
  have hparts : r.form = none ∧
      (r.readsPost lib = true ∨ (r.multipartBoundary lib).isSome = true) := by
    simpa only [Incoming.readsForm, Bool.and_eq_true, Bool.or_eq_true, decide_eq_true_eq] using h
  obtain ⟨hform, hbody⟩ := hparts
  unfold formValue
  rw [hform]
  unfold parseMultipartForm
  cases hpost : r.readsPost lib with
  | true =>
    -- The read is that of the posted form.
    have hpost : (r.method = "POST" ∨ r.method = "PUT" ∨ r.method = "PATCH") ∧
        r.postsForm lib = true := by
      simpa [Incoming.readsPost, or_assoc] using hpost
    unfold parseForm parsePostForm
    rw [if_pos hpost.1, if_pos hpost.2]
    exact ⟨true, maxFormSize wrapped + 1, _, rfl⟩
  | false =>
    obtain ⟨form, hparse⟩ := exists_parseForm_eq_pure hpost wrapped
    obtain ⟨boundary, hboundary⟩ :=
      Option.isSome_iff_exists.1 (hbody.resolve_left (by simp [hpost]))
    obtain ⟨all, n, k, hread⟩ := lib.readForm_reads boundary
    rw [hparse, hboundary]
    exact ⟨all, n, _, congrArg (fun p => p >>= _) (congrArg (fun p => p >>= _) hread)⟩

/-- A posted form that is too long is read up to one byte more than its limit, and leaves the values
of the query. -/
theorem does_formValue_tooLong {wrapped : Bool} {data : Str} (hform : r.form = none)
    (hmethod : r.method = "POST") (hposts : r.postsForm lib = true)
    (hboundary : r.multipartBoundary lib = none) (hlong : maxFormSize wrapped < data.length)
    (key : Str) :
    (formValue lib wrapped r key).Does [⟨.read true (maxFormSize wrapped + 1), ⟨data, none⟩⟩]
      ((Values.copy [] (parseQuery r.url.rawQuery)).get key,
        { r with form := some (Values.copy [] (parseQuery r.url.rawQuery)) }) := by
  unfold formValue
  rw [hform]
  unfold parseMultipartForm parseForm parsePostForm
  rw [if_pos (.inl hmethod), if_pos hposts, hboundary]
  refine ⟨⟨data, none⟩, [], rfl, rfl, ?_⟩
  simp only [true_or, if_true, if_pos hlong]

end FormValue

/-! ### What comes before the limit -/

/-- After the wrap every read is allowed. -/
theorem noEarlyRead_wrap (limit : ℕ) (u : Unit) (ops : Served) :
    NoEarlyRead (⟨.wrap limit, u⟩ :: ops) := by
  exact nofun

/-- What reads nothing may come first. -/
theorem noEarlyRead_append {before ops : Served} (hbefore : ∀ x ∈ before, x.1.isRead = false)
    (hops : NoEarlyRead ops) : NoEarlyRead (before ++ ops) := by
  intro x hx
  rw [beforeWrap, List.takeWhile_append] at hx
  split_ifs at hx
  · rcases List.mem_append.1 hx with h | h
    · exact hbefore x h
    · exact hops x h
  · exact hbefore x (List.takeWhile_subset _ hx)

/-- A read that nothing but other operations precede is an early one. -/
theorem not_noEarlyRead {before ops : Served} {all : Bool} {n : ℕ} {c : Chunk}
    (hbefore : ∀ x ∈ before, x.1.isWrap = false) :
    ¬ NoEarlyRead (before ++ ⟨.read all n, c⟩ :: ops) := by
  intro h
  have hmem : (⟨.read all n, c⟩ : (o : BodyOp) × BodyReply o) ∈
      beforeWrap (before ++ ⟨.read all n, c⟩ :: ops) := by
    rw [beforeWrap, List.takeWhile_append_of_pos fun x hx => by rw [hbefore x hx]; rfl]
    exact List.mem_append_right _ (.head _)
  cases h _ hmem

end VirePortal.Go
