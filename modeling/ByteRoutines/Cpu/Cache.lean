/-!
# Cache sizes

CPUID describes each cache in one leaf: its kind, its level and four fields
whose product is its size. `CacheSizes.ofLeaves` reads the leaves up to the
first null entry; the last data or unified cache of a level decides, and a
level without one keeps its standard size.
-/

namespace ByteRoutines.Cpu

structure CacheSizes where
  l1d : UInt64
  l2 : UInt64
  l3 : UInt64
  deriving DecidableEq

/-- The sizes assumed when nothing is known: 32 KiB, 1 MiB, 32 MiB. -/
def CacheSizes.standard : CacheSizes where
  l1d := 32768
  l2 := 1048576
  l3 := 33554432

structure CacheLeaf where
  eax : UInt32
  ebx : UInt32
  ecx : UInt32
  deriving DecidableEq

namespace CacheLeaf

/-- 0 ends the list, 1 is a data cache, 2 an instruction cache, 3 a unified one. -/
def kind (leaf : CacheLeaf) : UInt32 := leaf.eax &&& 0x1F

def level (leaf : CacheLeaf) : UInt32 := (leaf.eax >>> 5) &&& 0x7

def lineSize (leaf : CacheLeaf) : UInt64 := (leaf.ebx &&& 0xFFF).toUInt64 + 1

def partitions (leaf : CacheLeaf) : UInt64 := ((leaf.ebx >>> 12) &&& 0x3FF).toUInt64 + 1

/-- Places a line can go to within a set. -/
def ways (leaf : CacheLeaf) : UInt64 := ((leaf.ebx >>> 22) &&& 0x3FF).toUInt64 + 1

def sets (leaf : CacheLeaf) : UInt64 := leaf.ecx.toUInt64 + 1

/-- The size in bytes, as a product of machine words. -/
def size (leaf : CacheLeaf) : UInt64 :=
  leaf.ways * leaf.partitions * leaf.lineSize * leaf.sets

end CacheLeaf

namespace CacheSizes

/-- Notes one cache. Instruction caches and levels above 3 leave no trace. -/
def note (sizes : CacheSizes) (leaf : CacheLeaf) : CacheSizes :=
  if leaf.kind = 2 then sizes
  else if leaf.level = 1 then { sizes with l1d := leaf.size }
  else if leaf.level = 2 then { sizes with l2 := leaf.size }
  else if leaf.level = 3 then { sizes with l3 := leaf.size }
  else sizes

/-- The sizes described by the leaves before the first null entry. -/
def ofLeaves (leaves : List CacheLeaf) : CacheSizes :=
  (leaves.takeWhile fun leaf => leaf.kind != 0).foldl note standard

end CacheSizes

end ByteRoutines.Cpu
