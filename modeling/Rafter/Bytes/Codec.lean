import Mathlib.Control.Monad.Writer
import Mathlib.Tactic.Common

/-!
# Readers, writers and codecs of bytes

A `Reader` takes bytes from the front of its input or stops with an error; a `Writer` emits bytes
or stops with an error. `Codes read write` says that the two are inverse: what is written is read
back, whatever follows it, and what is read is exactly what would be written. A codec of a record
is put together field by field (`Codes.field`, `Codes.last`), one of a sum by its tag
(`Codes.field` at the tag, then `Codes.variant`), one of a validated type by `Codes.checked`.

The predicate `ctx` of a codec holds what is already known of the value when the reader starts:
the fields that were read before it. The predicate `dom` bounds the values that have a spelling
the reader takes back.

Results:

* `Codes.field`, `Codes.last`, `Codes.variant`, `Codes.checked`, `Codes.count`, `Codes.optional`:
  how codecs compose.
-/

namespace Bytes

variable {ε δ α β : Type}

/-! ## Checks in sequence -/

@[simp] theorem bind_eq_ok_iff {x : Except ε α} {f : α → Except ε β} {b : β} :
    x >>= f = .ok b ↔ ∃ a, x = .ok a ∧ f a = .ok b := by
  cases x with
  | error e => simp [bind, Except.bind]
  | ok a => simp [bind, Except.bind]

@[simp] theorem mapError_eq_ok_iff {x : Except ε α} {f : ε → δ} {a : α} :
    x.mapError f = .ok a ↔ x = .ok a := by
  cases x <;> simp [Except.mapError]

theorem map_eq_ok_iff {x : Except ε α} {f : α → β} {b : β} :
    x.map f = .ok b ↔ ∃ a, x = .ok a ∧ f a = b := by
  cases x <;> simp [Except.map]

theorem pure_eq_ok_iff {a b : α} : (pure a : Except ε α) = .ok b ↔ a = b := by
  show Except.ok a = Except.ok b ↔ _
  rw [Except.ok.injEq]

/-! ## Readers -/

/-- A reader over the bytes that remain. -/
abbrev Reader (ε α : Type) := StateT (List UInt8) (Except ε) α

/-- The reader takes `a` from the front of `input` and leaves `rest`. -/
def Reads (read : Reader ε α) (input : List UInt8) (a : α) (rest : List UInt8) : Prop :=
  read.run input = .ok (a, rest)

namespace Reader

/-- Take `len` bytes; `eof needed remaining` is the error when fewer remain. -/
def take (eof : ℕ → ℕ → ε) (len : ℕ) : Reader ε (List UInt8) := fun input =>
  if input.length < len then .error (eof len input.length)
  else .ok (input.take len, input.drop len)

/-- Continue with the value of a check that reads nothing. -/
def check (outcome : Except ε α) : Reader ε α := fun input =>
  match outcome with
  | .ok a => .ok (a, input)
  | .error e => .error e

/-- Read `n` items one after another. -/
def count (read : Reader ε α) : ℕ → Reader ε (List α)
  | 0 => pure []
  | n + 1 => do
    let a ← read
    let rest ← count read n
    return a :: rest

/-- Read a flag, and the item if it is set. -/
def optional (flag : Reader ε Bool) (read : Reader ε α) : Reader ε (Option α) := do
  match ← flag with
  | true =>
    let a ← read
    return some a
  | false => return none

end Reader

section Reads

variable {read : Reader ε α} {next : α → Reader ε β} {input rest : List UInt8} {a a' : α} {b : β}

@[simp] theorem reads_pure : Reads (pure a : Reader ε α) input a' rest ↔ a' = a ∧ rest = input := by
  show Except.ok (a, input) = Except.ok (a', rest) ↔ _
  rw [Except.ok.injEq, Prod.mk.injEq]
  exact and_congr eq_comm eq_comm

@[simp] theorem reads_bind : Reads (read >>= next) input b rest ↔
    ∃ a left, Reads read input a left ∧ Reads (next a) left b rest := by
  simp only [Reads, StateT.run_bind]
  cases h : read.run input with
  | error e =>
    refine iff_of_false ?_ ?_
    · intro hbad
      exact absurd hbad (by simp [bind, Except.bind])
    · rintro ⟨a, left, hbad, -⟩
      exact absurd hbad (by simp)
  | ok out =>
    constructor
    · intro hnext
      exact ⟨out.1, out.2, rfl, hnext⟩
    · rintro ⟨a, left, hout, hnext⟩
      rw [Except.ok.injEq] at hout
      subst hout
      exact hnext

@[simp] theorem reads_check {outcome : Except ε α} :
    Reads (Reader.check outcome) input a rest ↔ outcome = .ok a ∧ rest = input := by
  cases outcome with
  | error e =>
    refine iff_of_false ?_ (by simp)
    intro h
    have hbad : Except.error e = Except.ok (a, rest) := h
    exact absurd hbad (by simp)
  | ok a' =>
    show Except.ok (a', input) = Except.ok (a, rest) ↔ _
    rw [Except.ok.injEq, Except.ok.injEq, Prod.mk.injEq]
    exact and_congr Iff.rfl eq_comm

theorem reads_take {eof : ℕ → ℕ → ε} {len : ℕ} {taken : List UInt8} :
    Reads (Reader.take eof len) input taken rest ↔ taken.length = len ∧ input = taken ++ rest := by
  by_cases hlt : input.length < len
  · refine iff_of_false ?_ ?_
    · intro h
      have hbad : Reader.take eof len input = .ok (taken, rest) := h
      rw [Reader.take, if_pos hlt] at hbad
      exact absurd hbad (by simp)
    · rintro ⟨hlen, rfl⟩
      rw [List.length_append] at hlt
      omega
  · have hrun : Reads (Reader.take eof len) input taken rest ↔
        input.take len = taken ∧ input.drop len = rest := by
      show Reader.take eof len input = .ok (taken, rest) ↔ _
      rw [Reader.take, if_neg hlt, Except.ok.injEq, Prod.mk.injEq]
    rw [hrun]
    constructor
    · rintro ⟨rfl, rfl⟩
      exact ⟨by rw [List.length_take]; omega, (List.take_append_drop len input).symm⟩
    · rintro ⟨rfl, rfl⟩
      exact ⟨List.take_left, List.drop_left⟩

end Reads

/-! ## Writers -/

/-- A writer of bytes that may refuse its value. -/
abbrev Writer (δ α : Type) := WriterT (List UInt8) (Except δ) α

/-- The writer accepts its value and emits exactly `bytes`. -/
def Writes (write : Writer δ Unit) (bytes : List UInt8) : Prop :=
  write.run = .ok ((), bytes)

namespace Writer

/-- Emit bytes as they are. -/
def emit (bytes : List UInt8) : Writer δ Unit := WriterT.mk (.ok ((), bytes))

/-- Refuse. -/
def refuse (e : δ) : Writer δ Unit := WriterT.mk (.error e)

/-- Continue with the value of a check, or refuse with its error. -/
def attempt (outcome : Except δ α) (next : α → Writer δ Unit) : Writer δ Unit :=
  match outcome with
  | .error e => refuse e
  | .ok a => next a

/-- Write whether an item is there, and the item. -/
def optional (flag : Bool → Writer δ Unit) (write : α → Writer δ Unit) (item : Option α) :
    Writer δ Unit := do
  flag item.isSome
  match item with
  | some a => write a
  | none => pure ()

/-- The bytes a writer emits, or its refusal. -/
def output (write : Writer δ Unit) : Except δ (List UInt8) :=
  match write.run with
  | .ok (_, bytes) => .ok bytes
  | .error e => .error e

end Writer

section Writes

variable {write : Writer δ Unit} {next : Unit → Writer δ Unit} {bytes : List UInt8}

@[simp] theorem writes_emit {out : List UInt8} :
    Writes (Writer.emit out : Writer δ Unit) bytes ↔ bytes = out := by
  show Except.ok ((), out) = Except.ok ((), bytes) ↔ _
  rw [Except.ok.injEq, Prod.mk.injEq]
  simp [eq_comm]

@[simp] theorem writes_refuse {e : δ} : ¬ Writes (Writer.refuse e) bytes := by
  intro h
  have hbad : Except.error e = Except.ok ((), bytes) := h
  exact absurd hbad (by simp)

@[simp] theorem writes_pure : Writes (pure () : Writer δ Unit) bytes ↔ bytes = [] := by
  show Except.ok ((), []) = Except.ok ((), bytes) ↔ _
  rw [Except.ok.injEq, Prod.mk.injEq]
  simp [eq_comm]

@[simp] theorem writes_bind : Writes (write >>= next) bytes ↔
    ∃ x y, Writes write x ∧ Writes (next ()) y ∧ bytes = x ++ y := by
  have hrun : (write >>= next).run = write.run >>= fun out =>
      (next out.1).run >>= fun out' => .ok (out'.1, out.2 ++ out'.2) := rfl
  simp only [Writes, hrun]
  cases h : write.run with
  | error e => simp [bind, Except.bind]
  | ok out =>
    obtain ⟨⟨⟩, x⟩ := out
    cases h' : (next ()).run with
    | error e => simp [bind, Except.bind, h']
    | ok out' =>
      obtain ⟨⟨⟩, y⟩ := out'
      simp [bind, Except.bind, h', eq_comm]

theorem output_eq_ok_iff : write.output = .ok bytes ↔ Writes write bytes := by
  simp only [Writer.output, Writes]
  cases h : write.run with
  | error e => simp
  | ok out =>
    obtain ⟨⟨⟩, x⟩ := out
    simp

end Writes

/-! ## Codecs -/

/-- The reader takes back what the writer emits and nothing else: `ctx` is what is known of the
value beforehand, `dom` the values with a spelling that is read back. -/
structure Codes (ctx : α → Prop) (read : Reader ε α) (write : α → Writer δ Unit) (dom : α → Prop) :
    Prop where
  read_write : ∀ {a bytes}, ctx a → dom a → Writes (write a) bytes →
    ∀ rest, Reads read (bytes ++ rest) a rest
  write_read : ∀ {input a rest}, Reads read input a rest →
    ctx a ∧ dom a ∧ ∃ bytes, Writes (write a) bytes ∧ input = bytes ++ rest

namespace Codes

variable {ctx : β → Prop} {read : Reader ε α} {next : α → Reader ε β}
  {write : α → Writer δ Unit} {tail : β → Writer δ Unit} {dom : α → Prop} {dom' whole : β → Prop}

theorem congr {ctx₁ ctx₂ dom₁ dom₂ : α → Prop} (h : Codes ctx₁ read write dom₁)
    (hiff : ∀ a, ctx₂ a ∧ dom₂ a ↔ ctx₁ a ∧ dom₁ a) : Codes ctx₂ read write dom₂ where
  read_write hctx hdom := by
    obtain ⟨hctx, hdom⟩ := (hiff _).1 ⟨hctx, hdom⟩
    exact h.read_write hctx hdom
  write_read hread := by
    obtain ⟨hctx, hdom, hwrite⟩ := h.write_read hread
    obtain ⟨hctx, hdom⟩ := (hiff _).2 ⟨hctx, hdom⟩
    exact ⟨hctx, hdom, hwrite⟩

/-- Another writer of the same bytes. -/
theorem rewrite {ctx : α → Prop} {write' : α → Writer δ Unit} (h : Codes ctx read write dom)
    (hwrite : ∀ a bytes, Writes (write' a) bytes ↔ Writes (write a) bytes) :
    Codes ctx read write' dom where
  read_write hctx hdom hbytes := h.read_write hctx hdom ((hwrite _ _).1 hbytes)
  write_read hread := by
    obtain ⟨hctx, hdom, bytes, hbytes, rfl⟩ := h.write_read hread
    exact ⟨hctx, hdom, bytes, (hwrite _ _).2 hbytes, rfl⟩

/-- A reader that also checks what it reads as it goes. -/
theorem restrict {ctx : α → Prop} {read' : Reader ε α} {extra : α → Prop}
    (h : Codes ctx read write dom)
    (hread : ∀ input a rest, Reads read' input a rest ↔ Reads read input a rest ∧ extra a) :
    Codes ctx read' write (fun a => dom a ∧ extra a) where
  read_write := by
    rintro a bytes hctx ⟨hdom, hextra⟩ hwrite rest
    exact (hread _ _ _).2 ⟨h.read_write hctx hdom hwrite rest, hextra⟩
  write_read := by
    intro input a rest hread'
    obtain ⟨hreads, hextra⟩ := (hread _ _ _).1 hread'
    obtain ⟨hctx, hdom, hbytes⟩ := h.write_read hreads
    exact ⟨hctx, ⟨hdom, hextra⟩, hbytes⟩

/-- The first field of a record, then the rest with that field known. -/
theorem field (get : β → α) (h : Codes (fun _ => True) read write dom)
    (hwhole : ∀ b, whole b ↔ dom (get b) ∧ dom' b)
    (hnext : ∀ a, Codes (fun b => ctx b ∧ get b = a) (next a) tail dom') :
    Codes ctx (read >>= next) (fun b => write (get b) >>= fun _ => tail b) whole where
  read_write := by
    intro b bytes hctx hb hwrite rest
    obtain ⟨hdom, hdom'⟩ := (hwhole b).1 hb
    obtain ⟨x, y, hx, hy, rfl⟩ := writes_bind.1 hwrite
    rw [List.append_assoc]
    refine reads_bind.2 ⟨get b, y ++ rest, h.read_write trivial hdom hx _, ?_⟩
    exact (hnext (get b)).read_write ⟨hctx, rfl⟩ hdom' hy rest
  write_read := by
    intro input b rest hread
    obtain ⟨a, left, hfirst, hrest⟩ := reads_bind.1 hread
    obtain ⟨-, hdom, x, hx, rfl⟩ := h.write_read hfirst
    obtain ⟨⟨hctx, rfl⟩, hdom', y, hy, rfl⟩ := (hnext a).write_read hrest
    exact ⟨hctx, (hwhole b).2 ⟨hdom, hdom'⟩, x ++ y, writes_bind.2 ⟨x, y, hx, hy, rfl⟩,
      (List.append_assoc ..).symm⟩

/-- The first field of a record whose domain says the fields in order. -/
theorem head (get : β → α) (h : Codes (fun _ => True) read write dom)
    (hnext : ∀ a, Codes (fun b => ctx b ∧ get b = a) (next a) tail dom') :
    Codes ctx (read >>= next) (fun b => write (get b) >>= fun _ => tail b)
      (fun b => dom (get b) ∧ dom' b) :=
  field get h (fun _ => Iff.rfl) hnext

/-- A first field of which every value can be written. -/
theorem freeField (get : β → α) (h : Codes (fun _ => True) read write (fun _ => True))
    (hnext : ∀ a, Codes (fun b => ctx b ∧ get b = a) (next a) tail whole) :
    Codes ctx (read >>= next) (fun b => write (get b) >>= fun _ => tail b) whole :=
  field get h (fun _ => by simp) hnext

/-- A first field that some values lack: the writer refuses those. -/
theorem partialField (get : β → Except δ α) (h : Codes (fun _ => True) read write (fun _ => True))
    (hnext : ∀ a, Codes (fun b => ctx b ∧ get b = .ok a) (next a) tail whole) :
    Codes ctx (read >>= next)
      (fun b => Writer.attempt (get b) fun a => write a >>= fun _ => tail b) whole where
  read_write := by
    intro b bytes hctx hb hwrite rest
    cases hget : get b with
    | error e =>
      rw [hget] at hwrite
      exact absurd hwrite writes_refuse
    | ok a =>
      rw [hget] at hwrite
      obtain ⟨x, y, hx, hy, rfl⟩ := writes_bind.1 hwrite
      rw [List.append_assoc]
      refine reads_bind.2 ⟨a, y ++ rest, h.read_write trivial trivial hx _, ?_⟩
      exact (hnext a).read_write ⟨hctx, hget⟩ hb hy rest
  write_read := by
    intro input b rest hread
    obtain ⟨a, left, hfirst, hrest⟩ := reads_bind.1 hread
    obtain ⟨-, -, x, hx, rfl⟩ := h.write_read hfirst
    obtain ⟨⟨hctx, hget⟩, hb, y, hy, rfl⟩ := (hnext a).write_read hrest
    refine ⟨hctx, hb, x ++ y, ?_, (List.append_assoc ..).symm⟩
    rw [hget]
    exact writes_bind.2 ⟨x, y, hx, hy, rfl⟩

/-- The last field of a record: with it the value is known. -/
theorem last (get : β → α) {make : α → β} (h : Codes (fun _ => True) read write dom)
    (hwhole : ∀ b, whole b ↔ dom (get b)) (hmake : ∀ a b, ctx b ∧ get b = a ↔ b = make a) :
    Codes ctx (read >>= fun a => pure (make a)) (fun b => write (get b)) whole where
  read_write := by
    intro b bytes hctx hb hwrite rest
    have hread := h.read_write trivial ((hwhole b).1 hb) hwrite rest
    refine reads_bind.2 ⟨get b, rest, hread, ?_⟩
    exact reads_pure.2 ⟨(hmake _ _).1 ⟨hctx, rfl⟩, rfl⟩
  write_read := by
    intro input b rest hread
    obtain ⟨a, left, hfirst, hrest⟩ := reads_bind.1 hread
    obtain ⟨hb, rfl⟩ := reads_pure.1 hrest
    obtain ⟨-, hdom, x, hx, rfl⟩ := h.write_read hfirst
    obtain ⟨hctx, rfl⟩ := (hmake a b).2 hb
    exact ⟨hctx, (hwhole b).2 hdom, x, hx, rfl⟩

theorem final (get : β → α) {make : α → β} (h : Codes (fun _ => True) read write dom)
    (hmake : ∀ a b, ctx b ∧ get b = a ↔ b = make a) :
    Codes ctx (read >>= fun a => pure (make a)) (fun b => write (get b)) (fun b => dom (get b)) :=
  last get h (fun _ => Iff.rfl) hmake

theorem pair {read' : Reader ε β} {write' : β → Writer δ Unit} {dom' : β → Prop}
    (h : Codes (fun _ => True) read write dom) (h' : Codes (fun _ => True) read' write' dom') :
    Codes (fun _ => True) (read >>= fun a => read' >>= fun b => pure (a, b))
      (fun p : α × β => write p.1 >>= fun _ => write' p.2) (fun p => dom p.1 ∧ dom' p.2) := by
  refine head Prod.fst h fun a => final Prod.snd h' fun b p => ?_
  obtain ⟨x, y⟩ := p
  simp

/-- A value that the context determines and that needs no more bytes. -/
theorem known (b₀ : β) (hknown : ∀ b, ctx b ↔ b = b₀) (htail : tail b₀ = pure ())
    (hdom : dom' b₀) : Codes ctx (pure b₀ : Reader ε β) tail dom' where
  read_write := by
    intro b bytes hctx _ hwrite rest
    obtain rfl := (hknown b).1 hctx
    rw [htail] at hwrite
    rw [writes_pure.1 hwrite]
    exact reads_pure.2 ⟨rfl, rfl⟩
  write_read := by
    intro input b rest hread
    obtain ⟨rfl, rfl⟩ := reads_pure.1 hread
    refine ⟨(hknown _).2 rfl, hdom, [], ?_, rfl⟩
    rw [htail]
    exact writes_pure.2 rfl

/-- One constructor of a sum, once its tag is known. -/
theorem variant {branch : Reader ε β} (make : α → β) (h : Codes (fun _ => True) read write dom)
    (hbranch : branch = read >>= fun a => pure (make a))
    (hctx : ∀ b, ctx b ↔ ∃ a, b = make a) (htail : ∀ a, tail (make a) = write a)
    (hdom : ∀ a, dom' (make a) ↔ dom a) : Codes ctx branch tail dom' where
  read_write := by
    intro b bytes hb hdom' hwrite rest
    obtain ⟨a, rfl⟩ := (hctx b).1 hb
    rw [htail] at hwrite
    rw [hbranch]
    refine reads_bind.2 ⟨a, rest, h.read_write trivial ((hdom a).1 hdom') hwrite rest, ?_⟩
    exact reads_pure.2 ⟨rfl, rfl⟩
  write_read := by
    intro input b rest hread
    rw [hbranch] at hread
    obtain ⟨a, left, hfirst, hrest⟩ := reads_bind.1 hread
    obtain ⟨rfl, rfl⟩ := reads_pure.1 hrest
    obtain ⟨-, ha, x, hx, rfl⟩ := h.write_read hfirst
    exact ⟨(hctx _).2 ⟨a, rfl⟩, (hdom a).2 ha, x, by rwa [htail], rfl⟩

/-- A validated type: the reader checks the raw value it has read. -/
theorem checked {check : α → Except ε β} (raw : β → α) (h : Codes (fun _ => True) read write dom)
    (hraw : ∀ b, whole b → dom (raw b))
    (hcheck : ∀ a b, dom a → (check a = .ok b ↔ a = raw b ∧ ctx b ∧ whole b)) :
    Codes ctx (read >>= fun a => Reader.check (check a)) (fun b => write (raw b)) whole where
  read_write := by
    intro b bytes hctx hb hwrite rest
    have hdom := hraw b hb
    refine reads_bind.2 ⟨raw b, rest, h.read_write trivial hdom hwrite rest, ?_⟩
    exact reads_check.2 ⟨(hcheck _ _ hdom).2 ⟨rfl, hctx, hb⟩, rfl⟩
  write_read := by
    intro input b rest hread
    obtain ⟨a, left, hfirst, hrest⟩ := reads_bind.1 hread
    obtain ⟨hb, rfl⟩ := reads_check.1 hrest
    obtain ⟨-, hdom, x, hx, rfl⟩ := h.write_read hfirst
    obtain ⟨rfl, hctx, hwhole⟩ := (hcheck a b hdom).1 hb
    exact ⟨hctx, hwhole, x, hx, rfl⟩

/-- An item behind a flag that says whether it is there. -/
theorem optional {flag : Reader ε Bool} {writeFlag : Bool → Writer δ Unit}
    (hflag : Codes (fun _ => True) flag writeFlag (fun _ => True))
    (h : Codes (fun _ => True) read write dom) :
    Codes (fun _ => True) (Reader.optional flag read) (Writer.optional writeFlag write)
      (fun item => ∀ a ∈ item, dom a) := by
  refine freeField Option.isSome hflag fun present => ?_
  cases present with
  | true =>
    refine h.variant some rfl (fun item => ?_) (fun _ => rfl) fun a => by simp
    simp [Option.isSome_iff_exists]
  | false => exact known none (fun item => by simp) rfl (by simp)

/-- A list whose length is known, item by item. -/
theorem count (h : Codes (fun _ => True) read write dom) (n : ℕ) :
    Codes (fun items : List α => items.length = n) (Reader.count read n)
      (fun items => items.forM write) (fun items => ∀ a ∈ items, dom a) := by
  induction n with
  | zero =>
    constructor
    · intro items bytes hlen _ hwrite rest
      obtain rfl := List.length_eq_zero_iff.1 hlen
      rw [writes_pure.1 hwrite]
      exact reads_pure.2 ⟨rfl, rfl⟩
    · intro input items rest hread
      obtain ⟨rfl, rfl⟩ := reads_pure.1 hread
      exact ⟨rfl, by simp, [], writes_pure.2 rfl, rfl⟩
  | succ n ih =>
    constructor
    · intro items bytes hlen hdom hwrite rest
      obtain ⟨a, items, rfl⟩ := List.exists_cons_of_length_eq_add_one hlen
      obtain ⟨x, y, hx, hy, rfl⟩ := writes_bind.1 hwrite
      rw [List.append_assoc]
      have hfirst := h.read_write trivial (hdom a List.mem_cons_self) hx (y ++ rest)
      have hrest := ih.read_write (by simpa using hlen)
        (fun b hb => hdom b (List.mem_cons_of_mem _ hb)) hy rest
      exact reads_bind.2 ⟨a, y ++ rest, hfirst, reads_bind.2 ⟨items, rest, hrest,
        reads_pure.2 ⟨rfl, rfl⟩⟩⟩
    · intro input items rest hread
      obtain ⟨a, left, hfirst, hread⟩ := reads_bind.1 hread
      obtain ⟨tail, left', hrest, hread⟩ := reads_bind.1 hread
      obtain ⟨rfl, rfl⟩ := reads_pure.1 hread
      obtain ⟨-, ha, x, hx, rfl⟩ := h.write_read hfirst
      obtain ⟨hlen, htail, y, hy, rfl⟩ := ih.write_read hrest
      refine ⟨by simp [hlen], by simpa using ⟨ha, htail⟩, x ++ y, ?_, (List.append_assoc ..).symm⟩
      exact writes_bind.2 ⟨x, y, hx, hy, rfl⟩

end Codes

end Bytes
