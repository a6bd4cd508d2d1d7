import RelayMesh.SortedMap

namespace RelayMesh

/-- The identity of a server or a client. Servers get theirs from the operator, a client gets one from
the server it attaches to. -/
abbrev Id := UInt32

/-- A finite map from identities, in ascending order of identity. -/
abbrev IdMap (β : Type) := SortedMap Id β

end RelayMesh
