import Treasury.Address

/-! The accounts that a chain starts with. -/
namespace Treasury.Address

/-- The digests of the twenty known accounts, in order. -/
def knownDigests : List Digest :=
  [0x0ee624f1bbaec23e6dc6b877815f322058045c45cdbf8ef53e7db2c58b0af309#256,
    0x105b69f2d74a211a6cb337cba6751a8f15cc7b44b7c65329c29731b67e1ac047#256,
    0x147f2cc33b4fdb04ab4e9ef2c067137177097ba50a544a0a343ce636028fcfcf#256,
    0x2f492f5e3cf699b89a9b68293b8ac258f9e533d1212dda478ed98844b462f966#256,
    0x3d5de8c609159a0954e773dd686fb7724428316cb30e00bdc899976127747f55#256,
    0x4832f1a5428c19bb472f8952434058f9fe8cd1b51a48620ab3ecc1292c4e24de#256,
    0x4dd6685334b0ff4b12677d60950e193f62569169e40fa5b23dd85f624d0596b2#256,
    0x6377ec3a3cd949f107e3169e0f40874f0acd1f45728b1aca654a6d66bbc9435e#256,
    0x660a016639529cd9d5d1a1bf9a73025b9523b7316335a6971ba18d7a3c3a1120#256,
    0x67e7554760e6a57150ca567bdf38cc46ed178b5e688842ede7b854e8eabe5d80#256,
    0x83b0df3b014a0942acc20c07551fa58ea20a053457a82670ce0ed5d658945dc2#256,
    0x8866b1b964ac0eb4799ee1e91cebfa85df75de7ab47b279a39712015d4886b56#256,
    0x9ae54e8bbd0f378c61bb6c9a82ae2652151c0f0180a3c6b2c56c7cc916eb0928#256,
    0xa6f341ee3d5124163c75a93364df7556b1763313554d3abf4bedc8206d94c1b2#256,
    0xaecb045411527ca0eeb648bb6c531ea74b317c1f2d0a698b1cc48850ea3872d6#256,
    0xe825c1675ff08c1d0961d2251adc6a853336d0ca43ee543dd61b0a42def9dc00#256,
    0xe94daaff79c2ab8d9c31d9c3058d7d0a0dd31204a5638dc1451fa67b2e3fb88c#256,
    0xeef2f34906ce9115fbdd57aac0a31c58bcf90b0ea07995fe92bb9ba0115b2059#256,
    0xef4687f74d465826239bab05c4e1bdd2223dd8c201b96f361f775125e624ef70#256,
    0xf4668ecfd97223a9e9087b573eef139cb0b5adc513dfb3e8c248e802c571ed4b#256]

/-- The known account with a given index. -/
def account? (index : Nat) : Option Address := (knownDigests[index]?).map account

end Treasury.Address
