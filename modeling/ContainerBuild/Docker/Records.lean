import ContainerBuild.Json.Record

/-!
# Records in lines

A body may hold one record after another, each on a line of its own. The bytes are looked at as they
arrive: a record is given out once its line is complete, or once what is there is a record. A line that
is only the beginning of a record is joined with the line after it, and the search waits for more
bytes. When there are no more bytes, what is left over is a fault.
-/

namespace ContainerBuild
namespace Docker

inductive Found (α : Type)
  | record (a : α)
  /-- Nothing that is complete. -/
  | nothing
  /-- A line that holds no record. -/
  | fault (f : Json.Fault) (line : Bytes)

def lineFeed : UInt8 := 0x0A

/-- The record in a line; a line that ends too early, or that is null, has none yet. -/
def Found.ofLine {α : Type} (d : Json.Decoder α) (line : Bytes) : Found α :=
  match Json.read (Json.Decode.nullable d) line with
  | .ok (some a) => record a
  | .ok none => nothing
  | .error (.broken b) => if b.isEnd then nothing else fault (.broken b) line
  | .error f => fault f line

/-- Looks for the next record. Besides what it finds it gives the bytes that are left. -/
def look {α : Type} (d : Json.Decoder α) (b : Bytes) : Found α × Bytes :=
  let line := b.takeWhile (· != lineFeed)
  let rest := b.dropWhile (· != lineFeed)
  match Found.ofLine d line with
  | .record a => (.record a, rest.tail)
  | .nothing => (.nothing, line ++ rest.tail)
  | .fault f line => (.fault f line, b)

theorem length_look_lt {α : Type} {d : Json.Decoder α} {b rest : Bytes} {a : α}
    (hb : b ≠ []) (h : look d b = (.record a, rest)) : rest.length < b.length := by
  simp only [look] at h
  split at h
  · simp only [Prod.mk.injEq] at h
    rw [← h.2]
    have := (List.dropWhile_sublist (l := b) (· != lineFeed)).length_le
    cases hd : b.dropWhile (· != lineFeed) with
    | nil => simpa using List.length_pos_iff.2 hb
    | cons x xs => rw [hd] at this; simp only [List.length_cons, List.tail_cons] at *; omega
  · simp at h
  · simp at h

/-- Records that were found, and the bytes that are left or the faulty line that ended the search. -/
structure Search (α : Type) where
  records : List α
  left : Except (Json.Fault × Bytes) Bytes

def search {α : Type} (d : Json.Decoder α) (b : Bytes) : Search α :=
  if _hb : b = [] then ⟨[], .ok []⟩
  else
    match _h : look d b with
    | (.record a, rest) =>
      let more := search d rest
      { more with records := a :: more.records }
    | (.nothing, rest) => ⟨[], .ok rest⟩
    | (.fault f line, _) => ⟨[], .error (f, line)⟩
termination_by b.length
decreasing_by exact length_look_lt _hb _h

def searchChunks {α : Type} (d : Json.Decoder α) : Bytes → List Bytes → Search α
  | b, [] => ⟨[], .ok b⟩
  | b, chunk :: chunks =>
    let first := search d (b ++ chunk)
    match first.left with
    | .error f => ⟨first.records, .error f⟩
    | .ok rest =>
      let more := searchChunks d rest chunks
      { more with records := first.records ++ more.records }

end Docker
end ContainerBuild
